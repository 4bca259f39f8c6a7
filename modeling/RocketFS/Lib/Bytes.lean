import Mathlib.Data.List.Lex
import Mathlib.Order.Interval.Set.OrdConnected
import Mathlib.Tactic.Positivity
import Mathlib.Tactic.Ring

/-!
# Byte strings, their order, and big-endian numerals

Byte strings are compared as `memcmp` compares them: byte by byte, unsigned, a
proper prefix first. Fixed-width big-endian numerals embed the order of the
numbers into that order, which is what lets an ordered store keep all keys of
one number together.

## Main definitions

* `bigEndian` / `ofBigEndian` — fixed-width numerals in base 256, most
  significant byte first
* `validUtf8` — the well-formed byte sequences of the Unicode standard

## Main results

* `append_lt_append_iff` — comparing strings that start with equally long heads
* `bigEndian_lt_iff` — the order embedding
* `ofBigEndian_bigEndian`, `bigEndian_ofBigEndian` — the round trips
* `ordConnected_range_append` — the extensions of a string are an interval
* `lt_of_validUtf8` — well-formed sequences sort before the byte `0xFF`
-/

namespace RocketFS

instance instLinearOrderUInt8 : LinearOrder UInt8 where
  le_refl := UInt8.le_refl
  le_trans _ _ _ := UInt8.le_trans
  le_antisymm _ _ := UInt8.le_antisymm
  le_total := UInt8.le_total
  lt_iff_le_not_ge a b := by
    simp only [UInt8.lt_iff_toNat_lt, UInt8.le_iff_toNat_le]
    omega
  toDecidableLE := inferInstance
  toDecidableLT := inferInstance
  toDecidableEq := inferInstance

/-- A byte string. Its order is the one of `memcmp`, a proper prefix first. -/
abbrev Bytes := List UInt8

/-- The bytes of an ASCII text. -/
def ascii (text : String) : Bytes := text.toList.map fun c => UInt8.ofNat c.toNat

/-! ### Comparing concatenations -/

/-- Strings that start with equally long heads are compared by their heads first. -/
theorem append_lt_append_iff {a b x y : Bytes} (h : a.length = b.length) :
    a ++ x < b ++ y ↔ a < b ∨ a = b ∧ x < y := by
  induction a generalizing b with
  | nil =>
    obtain rfl : b = [] := List.eq_nil_of_length_eq_zero h.symm
    simp
  | cons c a ih =>
    cases b with
    | nil => simp at h
    | cons d b =>
      simp only [List.cons_append, List.cons_lt_cons_iff, List.cons.injEq,
        ih (Nat.succ.inj h)]
      constructor
      · rintro (hcd | ⟨rfl, hab | ⟨rfl, hxy⟩⟩)
        · exact .inl (.inl hcd)
        · exact .inl (.inr ⟨rfl, hab⟩)
        · exact .inr ⟨⟨rfl, rfl⟩, hxy⟩
      · rintro ((hcd | ⟨rfl, hab⟩) | ⟨⟨rfl, rfl⟩, hxy⟩)
        · exact .inl hcd
        · exact .inr ⟨rfl, .inl hab⟩
        · exact .inr ⟨rfl, .inr ⟨rfl, hxy⟩⟩

/-- A string between `a` and an extension of `a` extends `a`. -/
theorem exists_append_of_le_of_lt {a x s : Bytes} (hle : a ≤ s) (hlt : s < a ++ x) :
    ∃ y, s = a ++ y ∧ y < x := by
  induction a generalizing s with
  | nil => exact ⟨s, rfl, hlt⟩
  | cons c a ih =>
    cases s with
    | nil => exact absurd hle (not_le.mpr (List.nil_lt_cons c a))
    | cons d s =>
      rcases List.cons_lt_cons_iff.mp hlt with hdc | ⟨rfl, htail⟩
      · exact absurd hle (not_le.mpr (List.cons_lt_cons_iff.mpr (.inl hdc)))
      · have hle' : a ≤ s := by
          refine not_lt.mp fun h => absurd hle (not_le.mpr ?_)
          exact List.cons_lt_cons_iff.mpr (.inr ⟨rfl, h⟩)
        obtain ⟨y, rfl, hy⟩ := ih hle' htail
        exact ⟨y, rfl, hy⟩

theorem append_lt_append_left_iff (a : Bytes) {x y : Bytes} : a ++ x < a ++ y ↔ x < y := by
  rw [append_lt_append_iff rfl]
  simp

theorem le_append_right (a x : Bytes) : a ≤ a ++ x := by
  refine not_lt.mp fun h => ?_
  rw [← a.append_nil, List.append_assoc, List.nil_append, append_lt_append_left_iff] at h
  exact List.not_lt_nil x h

/-- The extensions of a string are an interval of all strings. -/
theorem ordConnected_range_append (a : Bytes) : (Set.range (a ++ ·)).OrdConnected := by
  refine ⟨?_⟩
  rintro _ ⟨x, rfl⟩ _ ⟨y, rfl⟩ s ⟨hx, hy⟩
  have hlow : a ≤ s := (le_append_right a x).trans hx
  -- a string up to an extension is below a longer one
  have hhigh : s < a ++ (y ++ [0]) := by
    refine lt_of_le_of_lt hy ?_
    rw [append_lt_append_left_iff]
    exact lt_of_le_of_ne (le_append_right y [0]) (by simp)
  obtain ⟨z, rfl, _⟩ := exists_append_of_le_of_lt hlow hhigh
  exact ⟨z, rfl⟩

/-! ### Big-endian numerals -/

/-- The `width` low base-256 digits of a number, most significant first. -/
def bigEndian : ℕ → ℕ → Bytes
  | 0, _ => []
  | width + 1, n => UInt8.ofNat (n / 256 ^ width) :: bigEndian width (n % 256 ^ width)

/-- The number a big-endian numeral stands for. -/
def ofBigEndian : Bytes → ℕ
  | [] => 0
  | b :: rest => b.toNat * 256 ^ rest.length + ofBigEndian rest

@[simp] theorem length_bigEndian (width n : ℕ) : (bigEndian width n).length = width := by
  induction width generalizing n with
  | zero => rfl
  | succ width ih => simp [bigEndian, ih]

private theorem toNat_digit {width n : ℕ} (h : n < 256 ^ (width + 1)) :
    (UInt8.ofNat (n / 256 ^ width)).toNat = n / 256 ^ width := by
  refine UInt8.toNat_ofNat_of_lt' ?_
  exact Nat.div_lt_of_lt_mul (by rwa [pow_succ] at h)

/-- A number that fits the width is read back from its numeral. -/
theorem ofBigEndian_bigEndian {width n : ℕ} (h : n < 256 ^ width) :
    ofBigEndian (bigEndian width n) = n := by
  induction width generalizing n with
  | zero =>
    rw [pow_zero, Nat.lt_one_iff] at h
    simp [bigEndian, ofBigEndian, h]
  | succ width ih =>
    rw [bigEndian, ofBigEndian, length_bigEndian, toNat_digit h,
      ih (Nat.mod_lt _ (by positivity))]
    exact Nat.div_add_mod' n (256 ^ width)

theorem ofBigEndian_lt (s : Bytes) : ofBigEndian s < 256 ^ s.length := by
  induction s with
  | nil => exact Nat.one_pos
  | cons b rest ih =>
    have hb : b.toNat + 1 ≤ 256 := b.toNat_lt
    calc b.toNat * 256 ^ rest.length + ofBigEndian rest
        < (b.toNat + 1) * 256 ^ rest.length := by rw [Nat.succ_mul]; omega
      _ ≤ 256 * 256 ^ rest.length := Nat.mul_le_mul_right _ hb
      _ = 256 ^ (rest.length + 1) := by rw [pow_succ, Nat.mul_comm]

/-- Every string is the numeral of the number it stands for. -/
theorem bigEndian_ofBigEndian (s : Bytes) : bigEndian s.length (ofBigEndian s) = s := by
  induction s with
  | nil => rfl
  | cons b rest ih =>
    have hrest := ofBigEndian_lt rest
    have hpos : 0 < 256 ^ rest.length := by positivity
    have hdiv : (b.toNat * 256 ^ rest.length + ofBigEndian rest) / 256 ^ rest.length =
        b.toNat := by
      rw [Nat.mul_comm, Nat.mul_add_div hpos, Nat.div_eq_of_lt hrest, Nat.add_zero]
    have hmod : (b.toNat * 256 ^ rest.length + ofBigEndian rest) % 256 ^ rest.length =
        ofBigEndian rest := by
      rw [Nat.mul_comm, Nat.mul_add_mod, Nat.mod_eq_of_lt hrest]
    rw [List.length_cons, ofBigEndian, bigEndian, hdiv, hmod, ih, UInt8.ofNat_toNat]

theorem bigEndian_injective {width n n' : ℕ} (hn : n < 256 ^ width) (hn' : n' < 256 ^ width)
    (h : bigEndian width n = bigEndian width n') : n = n' := by
  rw [← ofBigEndian_bigEndian hn, ← ofBigEndian_bigEndian hn', h]

/-- Numerals of one width are ordered as their numbers are. -/
theorem bigEndian_lt_iff {width n n' : ℕ} (hn : n < 256 ^ width) (hn' : n' < 256 ^ width) :
    bigEndian width n < bigEndian width n' ↔ n < n' := by
  induction width generalizing n n' with
  | zero =>
    rw [pow_zero, Nat.lt_one_iff] at hn hn'
    simp [bigEndian, hn, hn']
  | succ width ih =>
    have hpos : 0 < 256 ^ width := by positivity
    have hhead : ∀ {m m' : ℕ}, m < 256 ^ (width + 1) → m' < 256 ^ (width + 1) →
        (UInt8.ofNat (m / 256 ^ width) = UInt8.ofNat (m' / 256 ^ width) ↔
          m / 256 ^ width = m' / 256 ^ width) := by
      intro m m' hm hm'
      rw [← UInt8.toNat_inj, toNat_digit hm, toNat_digit hm']
    rw [bigEndian, bigEndian, List.cons_lt_cons_iff, UInt8.lt_iff_toNat_lt, toNat_digit hn,
      toNat_digit hn', hhead hn hn', ih (Nat.mod_lt _ hpos) (Nat.mod_lt _ hpos)]
    have hsplit := Nat.div_add_mod n (256 ^ width)
    have hsplit' := Nat.div_add_mod n' (256 ^ width)
    have hmod := Nat.mod_lt n hpos
    have hmod' := Nat.mod_lt n' hpos
    constructor
    · rintro (hlt | ⟨heq, hlt⟩)
      · exact Nat.lt_of_div_lt_div hlt
      · rw [← hsplit, ← hsplit', heq]
        omega
    · intro hlt
      rcases (Nat.div_le_div_right hlt.le : n / 256 ^ width ≤ n' / 256 ^ width).lt_or_eq with
        hd | hd
      · exact .inl hd
      · refine .inr ⟨hd, ?_⟩
        rw [← hsplit, ← hsplit', hd] at hlt
        omega

/-! ### UTF-8 -/

/-- Whether a byte lies in a range. -/
def byteIn (lo hi b : UInt8) : Bool := lo ≤ b && b ≤ hi

/-- Well-formed UTF-8, by the table of well-formed byte sequences of the Unicode
standard: no overlong form, no surrogate, nothing above U+10FFFF. -/
def validUtf8 : Bytes → Bool
  | [] => true
  | b0 :: rest =>
    if b0 ≤ 0x7F then validUtf8 rest
    else
      match rest with
      | b1 :: rest1 =>
        if byteIn 0xC2 0xDF b0 then byteIn 0x80 0xBF b1 && validUtf8 rest1
        else
          match rest1 with
          | b2 :: rest2 =>
            if b0 = 0xE0 then byteIn 0xA0 0xBF b1 && byteIn 0x80 0xBF b2 && validUtf8 rest2
            else if b0 = 0xED then
              byteIn 0x80 0x9F b1 && byteIn 0x80 0xBF b2 && validUtf8 rest2
            else if byteIn 0xE1 0xEF b0 then
              byteIn 0x80 0xBF b1 && byteIn 0x80 0xBF b2 && validUtf8 rest2
            else
              match rest2 with
              | b3 :: rest3 =>
                if b0 = 0xF0 then
                  byteIn 0x90 0xBF b1 && byteIn 0x80 0xBF b2 && byteIn 0x80 0xBF b3 &&
                    validUtf8 rest3
                else if byteIn 0xF1 0xF3 b0 then
                  byteIn 0x80 0xBF b1 && byteIn 0x80 0xBF b2 && byteIn 0x80 0xBF b3 &&
                    validUtf8 rest3
                else if b0 = 0xF4 then
                  byteIn 0x80 0x8F b1 && byteIn 0x80 0xBF b2 && byteIn 0x80 0xBF b3 &&
                    validUtf8 rest3
                else false
              | [] => false
          | [] => false
      | [] => false

/-- No well-formed sequence starts with `0xFF`. -/
theorem head_ne_of_validUtf8 {b : UInt8} {rest : Bytes} (h : validUtf8 (b :: rest)) :
    b ≠ 0xFF := by
  rintro rfl
  rcases rest with _ | ⟨b1, _ | ⟨b2, _ | ⟨b3, rest⟩⟩⟩ <;> simp [validUtf8, byteIn] at h

/-- A well-formed sequence sorts before the single byte `0xFF`. -/
theorem lt_of_validUtf8 {name : Bytes} (h : validUtf8 name) : name < [0xFF] := by
  cases name with
  | nil => exact List.nil_lt_cons _ _
  | cons b rest =>
    have hb : b < 0xFF := by
      have hne := head_ne_of_validUtf8 h
      have hlt : b.toNat < 256 := b.toNat_lt
      rw [UInt8.lt_iff_toNat_lt]
      rw [ne_eq, ← UInt8.toNat_inj] at hne
      simp only [UInt8.reduceToNat] at hne ⊢
      omega
    exact List.cons_lt_cons_iff.mpr (.inl hb)

end RocketFS
