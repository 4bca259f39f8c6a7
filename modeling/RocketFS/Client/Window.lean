import Mathlib.Tactic.Ring
import RocketFS.Client.ReadDir

/-!
# The readdir window in `off_t`

The cache of a handle is a window of the directory stream: a vector of entries, the
offset of its first entry and the offset up to which it has been copied.
`PopulateDirEntriesBuffer` runs over it with both cursors at once, the absolute offset
and the index into the vector, which is the difference of the two offsets converted to
an unsigned number. Here the offsets are 64-bit integers as in the source, and an
overflow of one, like an index past the end of the vector, has no outcome (`none`).

In bounds none of that happens, and the function is the one over natural numbers that
the rest of the client is modelled with.

## Main definitions

* `OffT.CacheDirEntries`, `OffT.CacheDirEntries.populateDirEntriesBuffer` — the source
* `InBounds` — the bounds of the window
* `Delivered` — what a sequence of calls has delivered

## Main results

* `populateDirEntriesBuffer_eq` — one call
* `Delivered.step`, `window_delivered` — one more call, and any sequence of calls
* `populateDirEntriesBuffer_toNat` — the model over natural numbers
-/

namespace RocketFS

namespace OffT

/-- `lhs + rhs`. A sum that is not an `off_t` is undefined. -/
def add (lhs rhs : Int64) : Option Int64 :=
  if (lhs + rhs).toInt = lhs.toInt + rhs.toInt then some (lhs + rhs) else none

/-- `lhs - rhs`. A difference that is not an `off_t` is undefined. -/
def sub (lhs rhs : Int64) : Option Int64 :=
  if (lhs - rhs).toInt = lhs.toInt - rhs.toInt then some (lhs - rhs) else none

theorem add_eq_some {lhs rhs sum : Int64} (h : add lhs rhs = some sum) :
    sum.toInt = lhs.toInt + rhs.toInt := by
  rw [add] at h
  split_ifs at h with hexact
  obtain rfl := Option.some.inj h
  exact hexact

/-- `CacheDirEntries`. A vector has at most `PTRDIFF_MAX` elements. -/
structure CacheDirEntries where
  startOff : Int64
  endOff : Int64
  entries : List DEnt
  hasMore : Bool
  length_lt : entries.length < 2 ^ 63

namespace CacheDirEntries

/-- `entries.size()`. -/
def size (cache : CacheDirEntries) : UInt64 := UInt64.ofNat cache.entries.length

/-- The loop of `PopulateDirEntriesBuffer`: the entries written, with the offsets attached
to them. `need` is the size `fuse_add_direntry` returns for an entry, which it writes if
that is within `size`, what is left of the buffer. -/
def fillBuffer (need : DEnt → ℕ) (cache : CacheDirEntries) (size : ℕ) :
    Option (List (DEnt × Int64) × CacheDirEntries) :=
  match sub cache.endOff cache.startOff with
  | none => none
  | some i =>
    -- the difference is an `off_t`, and is converted to compare it with a `size_t`
    if i.toUInt64 < cache.size then
      -- `entries.at`, which throws past the end
      match cache.entries[i.toUInt64.toNat]? with
      | none => none
      | some entry =>
        -- the offset attached to the entry, and `end_off` if it is written
        match _ : add cache.endOff 1 with
        | none => none
        | some off =>
          let bytesWritten := need entry
          if bytesWritten > size then some ([], cache)
          else
            match fillBuffer need { cache with endOff := off } (size - bytesWritten) with
            | none => none
            | some (written, cache) => some ((entry, off) :: written, cache)
    else some ([], cache)
termination_by (2 ^ 63 - cache.endOff.toInt).toNat
decreasing_by
  have hoff := add_eq_some ‹add cache.endOff 1 = some off›
  have hlt := off.toInt_lt
  have hone : (1 : Int64).toInt = 1 := rfl
  omega

/-- `PopulateDirEntriesBuffer`. -/
def populateDirEntriesBuffer (need : DEnt → ℕ) (cache : CacheDirEntries) (size : ℕ) :
    Option (List (DEnt × Int64) × CacheDirEntries) := do
  let (written, cache) ← fillBuffer need cache size
  let copied ← sub cache.endOff cache.startOff
  if copied.toUInt64 = cache.size then
    return (written,
      { cache with startOff := cache.endOff, entries := [], length_lt := by decide })
  else return (written, cache)

variable {need : DEnt → ℕ} {cache : CacheDirEntries} {size n : ℕ} {entry : DEnt}
  {rest : List DEnt}

/-! ### Bounds -/

/-- The number of entries that have been copied. -/
def copied (cache : CacheDirEntries) : ℕ := (cache.endOff.toInt - cache.startOff.toInt).toNat

/-- The entries that have not been delivered. -/
def remaining (cache : CacheDirEntries) : List DEnt := cache.entries.drop cache.copied

/-- `start_off <= end_off <= start_off + entries.size()`, the sum being an `off_t`. -/
def InBounds (cache : CacheDirEntries) : Prop :=
  cache.startOff ≤ cache.endOff ∧
    cache.endOff ≤ cache.startOff + Int64.ofNat cache.entries.length

instance (cache : CacheDirEntries) : Decidable cache.InBounds :=
  inferInstanceAs (Decidable (_ ∧ _))

/-- In bounds, no offset up to the end of the window overflows. -/
theorem inBounds_iff : cache.InBounds ↔
    cache.startOff.toInt ≤ cache.endOff.toInt ∧
      cache.endOff.toInt ≤ cache.startOff.toInt + cache.entries.length ∧
      cache.startOff.toInt + cache.entries.length < 2 ^ 63 := by
  have hlength := cache.length_lt
  have hlow := cache.startOff.le_toInt
  have hend := cache.endOff.toInt_lt
  -- a sum that wraps around is below `start_off`
  rw [InBounds, Int64.le_iff_toInt_le, Int64.le_iff_toInt_le, Int64.toInt_add,
    Int64.toInt_ofNat_of_lt hlength, Int.bmod_def]
  split_ifs <;> omega

@[simp] theorem toNat_size (cache : CacheDirEntries) :
    cache.size.toNat = cache.entries.length :=
  UInt64.toNat_ofNat_of_lt' (cache.length_lt.trans (by decide))

/-- The cache after `n` more entries have been copied. -/
def advance (cache : CacheDirEntries) (n : ℕ) : CacheDirEntries :=
  { cache with endOff := cache.endOff + Int64.ofNat n }

@[simp] theorem startOff_advance (cache : CacheDirEntries) (n : ℕ) :
    (cache.advance n).startOff = cache.startOff := rfl

@[simp] theorem entries_advance (cache : CacheDirEntries) (n : ℕ) :
    (cache.advance n).entries = cache.entries := rfl

@[simp] theorem advance_zero (cache : CacheDirEntries) : cache.advance 0 = cache := by
  have hzero : cache.endOff + Int64.ofNat 0 = cache.endOff := Int64.add_zero _
  rw [advance, hzero]

theorem advance_advance (cache : CacheDirEntries) (m n : ℕ) :
    (cache.advance m).advance n = cache.advance (m + n) := by
  simp only [advance, Int64.ofNat_add, Int64.add_assoc]

namespace InBounds

theorem endOff_eq (h : cache.InBounds) :
    cache.endOff.toInt = cache.startOff.toInt + cache.copied := by
  obtain ⟨hstart, _⟩ := inBounds_iff.mp h
  rw [copied]
  omega

theorem copied_le (h : cache.InBounds) : cache.copied ≤ cache.entries.length := by
  obtain ⟨_, hend, _⟩ := inBounds_iff.mp h
  rw [h.endOff_eq] at hend
  omega

theorem length_remaining (h : cache.InBounds) :
    cache.copied + cache.remaining.length = cache.entries.length := by
  rw [remaining, List.length_drop, Nat.add_sub_cancel' h.copied_le]

/-- The index the loop computes from the two offsets. -/
theorem sub_eq_some (h : cache.InBounds) :
    ∃ i, sub cache.endOff cache.startOff = some i ∧ i.toUInt64.toNat = cache.copied := by
  obtain ⟨hstart, hend, _⟩ := inBounds_iff.mp h
  have hlength := cache.length_lt
  -- the difference is at most the size of the vector, so it is exact and not negative
  have hexact : (cache.endOff - cache.startOff).toInt =
      cache.endOff.toInt - cache.startOff.toInt := by
    rw [Int64.toInt_sub]
    exact Int.bmod_eq_of_le (by omega) (by omega)
  refine ⟨cache.endOff - cache.startOff, if_pos hexact, ?_⟩
  have hnonneg : 0 ≤ cache.endOff - cache.startOff := by
    rw [Int64.le_iff_toInt_le, hexact]
    exact sub_nonneg.mpr hstart
  rw [Int64.toNat_toUInt64_of_le hnonneg, copied, ← hexact]
  rfl

theorem toInt_endOff_advance (h : cache.InBounds) (hn : n ≤ cache.remaining.length) :
    (cache.advance n).endOff.toInt = cache.endOff.toInt + n := by
  obtain ⟨hstart, _, hlast⟩ := inBounds_iff.mp h
  have hlow := cache.startOff.le_toInt
  have hlength := h.length_remaining
  have hend := h.endOff_eq
  have hn' : n < 2 ^ 63 := lt_of_le_of_lt (by omega) cache.length_lt
  rw [advance, Int64.toInt_add, Int64.toInt_ofNat_of_lt hn']
  exact Int.bmod_eq_of_le (by omega) (by omega)

/-- Copying some of the remaining entries stays in bounds, and leaves the others. -/
theorem advance (h : cache.InBounds) (hn : n ≤ cache.remaining.length) :
    (cache.advance n).InBounds ∧ (cache.advance n).copied = cache.copied + n ∧
      (cache.advance n).remaining = cache.remaining.drop n := by
  have hoff := h.toInt_endOff_advance hn
  have hlength := h.length_remaining
  have hend := h.endOff_eq
  obtain ⟨hstart, _, hlast⟩ := inBounds_iff.mp h
  have hcopied : (cache.advance n).copied = cache.copied + n := by
    rw [copied, hoff, startOff_advance]
    omega
  refine ⟨inBounds_iff.mpr ?_, hcopied, ?_⟩
  · rw [hoff, startOff_advance, entries_advance]
    omega
  · rw [remaining, hcopied, entries_advance, remaining, List.drop_drop]

/-- The next entry is copied: what the loop over the remaining entries keeps. -/
theorem next (h : cache.InBounds) (hone : 1 ≤ cache.remaining.length) :
    (cache.advance 1).InBounds ∧
      (cache.advance 1).remaining.length + 1 = cache.remaining.length ∧
      (cache.advance 1).endOff.toInt = cache.endOff.toInt + 1 := by
  obtain ⟨hnext, _, hremaining⟩ := h.advance hone
  refine ⟨hnext, ?_, h.toInt_endOff_advance hone⟩
  rw [hremaining, List.length_drop]
  omega

end InBounds

/-! ### The loop -/

/-- Entries with the offsets that follow `off`. -/
def stamp (off : Int64) : List DEnt → List (DEnt × Int64)
  | [] => []
  | entry :: rest => (entry, off + 1) :: stamp (off + 1) rest

/-- The next offset is that of the cache after its next entry. -/
theorem stamp_cons (cache : CacheDirEntries) (entry : DEnt) (rest : List DEnt) :
    stamp cache.endOff (entry :: rest) =
      (entry, (cache.advance 1).endOff) :: stamp (cache.advance 1).endOff rest := rfl

theorem map_fst_stamp (off : Int64) (es : List DEnt) : (stamp off es).map Prod.fst = es := by
  induction es generalizing off with
  | nil => rfl
  | cons entry rest ih => rw [stamp, List.map_cons, ih]

@[simp] theorem length_stamp (off : Int64) (es : List DEnt) :
    (stamp off es).length = es.length := by
  rw [← List.length_map (f := Prod.fst), map_fst_stamp]

theorem fillBuffer_of_nil (h : cache.InBounds) (hnil : cache.remaining = []) :
    fillBuffer need cache size = some ([], cache) := by
  obtain ⟨i, hsub, hi⟩ := h.sub_eq_some
  have hdone : ¬ i.toUInt64 < cache.size := by
    rw [UInt64.lt_iff_toNat_lt, hi, toNat_size]
    exact not_lt.mpr (List.drop_eq_nil_iff.mp hnil)
  rw [fillBuffer, hsub]
  exact if_neg hdone

/-- A round of the loop. -/
theorem fillBuffer_of_cons (h : cache.InBounds) (hcons : cache.remaining = entry :: rest) :
    fillBuffer need cache size =
      if need entry > size then some ([], cache)
      else (fillBuffer need (cache.advance 1) (size - need entry)).map fun r =>
        ((entry, cache.endOff + 1) :: r.1, r.2) := by
  obtain ⟨i, hsub, hi⟩ := h.sub_eq_some
  have hlength := h.length_remaining
  rw [hcons, List.length_cons] at hlength
  have hmore : i.toUInt64 < cache.size := by
    rw [UInt64.lt_iff_toNat_lt, hi, toNat_size]
    omega
  have hentry : cache.entries[i.toUInt64.toNat]? = some entry := by
    rw [hi, ← List.head?_drop]
    exact congrArg List.head? hcons
  have hadd : add cache.endOff 1 = some (cache.endOff + 1) := by
    refine if_pos ?_
    exact h.toInt_endOff_advance (n := 1) (by simp [hcons])
  rw [fillBuffer]
  simp only [hsub, if_pos hmore, hentry]
  -- the match on the sum names the equation its termination rests on, so it is split
  split
  · rename_i hnone
    rw [hadd] at hnone
    cases hnone
  · rename_i off hsome
    rw [hadd] at hsome
    obtain rfl := Option.some.inj hsome
    refine if_congr Iff.rfl rfl ?_
    change _ = (fillBuffer need { cache with endOff := cache.endOff + 1 } _).map _
    cases fillBuffer need { cache with endOff := cache.endOff + 1 } (size - need entry) <;> rfl

/-- The loop copies the longest prefix of the remaining entries that fits. -/
theorem fillBuffer_eq (h : cache.InBounds) :
    fillBuffer need cache size =
      some (stamp cache.endOff (takeFitting need cache.remaining size),
        cache.advance (takeFitting need cache.remaining size).length) := by
  -- by induction on the remaining entries, of which a round copies the first
  generalize hrest : cache.remaining = es
  induction es generalizing cache size with
  | nil =>
    rw [fillBuffer_of_nil h hrest, takeFitting, List.length_nil, advance_zero]
    rfl
  | cons entry rest ih =>
    rw [fillBuffer_of_cons h hrest]
    split_ifs with hroom
    · rw [takeFitting_cons_of_lt hroom, List.length_nil, advance_zero]
      rfl
    · obtain ⟨hnext, _, hrest'⟩ := h.advance (n := 1) (by simp [hrest])
      rw [hrest, List.drop_one, List.tail_cons] at hrest'
      rw [ih hnext hrest', takeFitting_cons_of_le (not_lt.mp hroom), Option.map_some,
        advance_advance, List.length_cons, Nat.add_comm]
      rfl

/-! ### One call -/

/-- The cache after the last of its entries has been copied. -/
def cleared (cache : CacheDirEntries) : CacheDirEntries :=
  { cache with startOff := cache.endOff, entries := [], length_lt := by decide }

theorem inBounds_cleared (cache : CacheDirEntries) : cache.cleared.InBounds := by
  have hlt := cache.endOff.toInt_lt
  rw [inBounds_iff]
  change cache.endOff.toInt ≤ cache.endOff.toInt ∧
    cache.endOff.toInt ≤ cache.endOff.toInt + (0 : ℕ) ∧ cache.endOff.toInt + (0 : ℕ) < 2 ^ 63
  omega

@[simp] theorem remaining_cleared (cache : CacheDirEntries) : cache.cleared.remaining = [] :=
  List.drop_nil

/-- The cache after a call that copied the entries `taken`. -/
def afterCopying (cache : CacheDirEntries) (taken : List DEnt) : CacheDirEntries :=
  if taken = cache.remaining then (cache.advance taken.length).cleared
  else cache.advance taken.length

@[simp] theorem endOff_afterCopying (cache : CacheDirEntries) (taken : List DEnt) :
    (cache.afterCopying taken).endOff = (cache.advance taken.length).endOff := by
  rw [afterCopying]
  split_ifs <;> rfl

section AfterCopying

variable {taken : List DEnt}

theorem InBounds.afterCopying (h : cache.InBounds) (htaken : taken <+: cache.remaining) :
    (cache.afterCopying taken).InBounds ∧
      (cache.afterCopying taken).remaining = cache.remaining.drop taken.length := by
  obtain ⟨hnext, _, hremaining⟩ := h.advance htaken.length_le
  rw [CacheDirEntries.afterCopying]
  split_ifs with hall
  · refine ⟨inBounds_cleared _, ?_⟩
    rw [remaining_cleared, hall, List.drop_length]
  · exact ⟨hnext, hremaining⟩

/-- The entries are cleared exactly when none remain. -/
theorem afterCopying_cleared_iff (htaken : taken <+: cache.remaining) :
    (cache.afterCopying taken).entries = [] ∧
        (cache.afterCopying taken).startOff = (cache.afterCopying taken).endOff ↔
      taken = cache.remaining := by
  rw [afterCopying]
  split_ifs with hall
  · exact ⟨fun _ => hall, fun _ => ⟨rfl, rfl⟩⟩
  · refine ⟨fun hcleared => ?_, fun heq => absurd heq hall⟩
    -- entries that were not cleared are still there, and some of them remain
    have hentries : cache.entries = [] := hcleared.1
    have hnone : cache.remaining = [] := by rw [remaining, hentries, List.drop_nil]
    rw [hnone] at htaken ⊢
    exact List.prefix_nil.mp htaken

end AfterCopying

/-- A call writes the longest prefix of the remaining entries that fits. -/
theorem populateDirEntriesBuffer_eq (h : cache.InBounds) :
    populateDirEntriesBuffer need cache size =
      some (stamp cache.endOff (takeFitting need cache.remaining size),
        cache.afterCopying (takeFitting need cache.remaining size)) := by
  have hlength := h.length_remaining
  have hpre := (takeFitting_isLongest need cache.remaining size).isPrefix
  rw [populateDirEntriesBuffer, fillBuffer_eq h]
  generalize takeFitting need cache.remaining size = taken at hpre
  obtain ⟨hnext, hcopied, _⟩ := h.advance hpre.length_le
  obtain ⟨i, hsub, hi⟩ := hnext.sub_eq_some
  -- the vector has been used up when as many entries were taken as remained
  have hdone : i.toUInt64 = (cache.advance taken.length).size ↔ taken = cache.remaining := by
    rw [← UInt64.toNat_inj, hi, toNat_size, hcopied, entries_advance]
    constructor
    · exact fun heq => hpre.eq_of_length (by omega)
    · rintro rfl
      exact hlength
  simp only [Option.bind_eq_bind, Option.bind_some, hsub, hdone, afterCopying]
  split_ifs <;> rfl

/-- In bounds, the offsets that follow `end_off` are consecutive numbers. -/
theorem map_toInt_stamp (h : cache.InBounds) {es : List DEnt}
    (hes : es.length ≤ cache.remaining.length) :
    (stamp cache.endOff es).map (fun w => w.2.toInt) =
      (List.range es.length).map fun i : ℕ => cache.endOff.toInt + 1 + i := by
  induction es generalizing cache with
  | nil => rfl
  | cons entry rest ih =>
    rw [List.length_cons] at hes
    obtain ⟨hnext, hremaining, hoff⟩ := h.next (by omega)
    rw [stamp_cons, List.map_cons, ih hnext (by omega), List.length_cons, List.range_succ_eq_map,
      List.map_cons, List.map_map, hoff]
    refine List.cons_eq_cons.mpr ⟨by simp, List.map_congr_left fun i _ => ?_⟩
    simp only [Function.comp_apply, Nat.cast_succ]
    ring

/-! ### A sequence of calls -/

/-- A call with a buffer of some size. -/
def populateStep (need : DEnt → ℕ) (cache : CacheDirEntries) (size : ℕ) :
    Option (CacheDirEntries × List (DEnt × Int64)) :=
  (cache.populateDirEntriesBuffer need size).map Prod.swap

/-- All entries written by some calls. -/
def written (trace : List (ℕ × List (DEnt × Int64))) : List (DEnt × Int64) :=
  trace.flatMap Prod.snd

theorem written_snoc (trace : List (ℕ × List (DEnt × Int64))) (size : ℕ)
    (out : List (DEnt × Int64)) : written (trace ++ [(size, out)]) = written trace ++ out := by
  simp [written]

/-- What a sequence of calls has made of the window. -/
structure Delivered (need : DEnt → ℕ) (cache : CacheDirEntries)
    (trace : List (ℕ × List (DEnt × Int64))) (cache' : CacheDirEntries) : Prop where
  inBounds : cache'.InBounds
  endOff : cache'.endOff.toInt = cache.endOff.toInt + (written trace).length
  entries : (written trace).map Prod.fst =
    cache.remaining.take (cache'.endOff.toInt - cache.endOff.toInt).toNat
  offsets : (written trace).map (fun w => w.2.toInt) =
    (List.range (written trace).length).map fun i : ℕ => cache.endOff.toInt + 1 + i
  remaining : cache'.remaining = cache.remaining.drop (written trace).length
  longest : Along (fun before call =>
    IsLongestFitting need (cache.remaining.drop (written before).length) call.1
      (call.2.map Prod.fst)) trace
  cleared_iff : trace ≠ [] →
    (cache'.entries = [] ∧ cache'.startOff = cache'.endOff ↔
      (written trace).map Prod.fst = cache.remaining)

theorem Delivered.nil (h : cache.InBounds) : Delivered need cache [] cache where
  inBounds := h
  endOff := by simp [written]
  entries := by simp [written]
  offsets := rfl
  remaining := rfl
  longest := along_nil
  cleared_iff hne := absurd rfl hne

theorem Delivered.map_fst_written {trace : List (ℕ × List (DEnt × Int64))}
    {s : CacheDirEntries} (h : Delivered need cache trace s) :
    (written trace).map Prod.fst = cache.remaining.take (written trace).length := by
  rw [h.entries, h.endOff, add_sub_cancel_left, Int.toNat_natCast]

/-- A call in bounds returns, and the window has been delivered as far as it now is. -/
theorem Delivered.step {trace : List (ℕ × List (DEnt × Int64))} {s : CacheDirEntries}
    (h : Delivered need cache trace s) (size : ℕ) :
    ∃ s' out, populateStep need s size = some (s', out) ∧
      Delivered need cache (trace ++ [(size, out)]) s' := by
  have hlongest := takeFitting_isLongest need s.remaining size
  refine ⟨_, _, by rw [populateStep, populateDirEntriesBuffer_eq h.inBounds]; rfl, ?_⟩
  generalize takeFitting need s.remaining size = taken at hlongest
  have htaken := hlongest.isPrefix
  obtain ⟨hbounds, hremaining⟩ := h.inBounds.afterCopying htaken
  have hoff := h.inBounds.toInt_endOff_advance htaken.length_le
  have hlength : (written (trace ++ [(size, stamp s.endOff taken)])).length =
      (written trace).length + taken.length := by
    rw [written_snoc, List.length_append, length_stamp]
  have hend : (s.afterCopying taken).endOff.toInt =
      cache.endOff.toInt + (written (trace ++ [(size, stamp s.endOff taken)])).length := by
    rw [endOff_afterCopying, hoff, h.endOff, hlength, Nat.cast_add, add_assoc]
  -- what was taken are the entries that follow those written before
  have hentries : (written (trace ++ [(size, stamp s.endOff taken)])).map Prod.fst =
      cache.remaining.take ((written trace).length + taken.length) := by
    have htake := List.prefix_iff_eq_take.mp htaken
    rw [h.remaining] at htake
    rw [written_snoc, List.map_append, map_fst_stamp, h.map_fst_written, List.take_add, ← htake]
  refine ⟨hbounds, hend, ?_, ?_, ?_, along_snoc.mpr ⟨h.longest, ?_⟩, fun _ => ?_⟩
  · rw [hentries, hend, add_sub_cancel_left, Int.toNat_natCast, hlength]
  · rw [hlength, written_snoc, List.map_append, h.offsets,
      map_toInt_stamp h.inBounds htaken.length_le, h.endOff, List.range_add, List.map_append,
      List.map_map]
    refine congrArg _ (List.map_congr_left fun i _ => ?_)
    simp only [Function.comp_apply, Nat.cast_add]
    ring
  · rw [hremaining, h.remaining, List.drop_drop, hlength]
  · rw [map_fst_stamp, ← h.remaining]
    exact hlongest
  · rw [afterCopying_cleared_iff htaken, written_snoc, List.map_append, map_fst_stamp,
      h.map_fst_written, h.remaining]
    conv_rhs => rhs; rw [← List.take_append_drop (written trace).length cache.remaining]
    rw [List.append_cancel_left_eq]

/-- Every sequence of calls, with buffers of any sizes, on a window in bounds: all calls
return, and they have delivered the window as far as `end_off` has moved, whatever the
sizes the entries need. -/
theorem window_delivered (need : DEnt → ℕ) {cache : CacheDirEntries} (h : cache.InBounds)
    (sizes : List ℕ) :
    ∃ trace cache', replay (populateStep need) cache sizes = some (trace, cache') ∧
      trace.map Prod.fst = sizes ∧ Delivered need cache trace cache' := by
  have hcall : ∀ s size, InBounds s →
      ∃ s' out, populateStep need s size = some (s', out) ∧ InBounds s' := by
    intro s size hs
    have hnone : Delivered need s [] s := .nil hs
    obtain ⟨s', out, hstep, hnext⟩ := hnone.step size
    exact ⟨s', out, hstep, hnext.inBounds⟩
  obtain ⟨trace, cache', hreplay⟩ := exists_replay hcall h sizes
  refine ⟨trace, cache', hreplay, map_fst_of_replay hreplay, ?_⟩
  refine (run_of_replay hreplay).invariant (.nil h) ?_
  intro trace s size s' out _ hdelivered hstep
  obtain ⟨_, _, hcopied, hnext⟩ := hdelivered.step size
  obtain ⟨rfl, rfl⟩ := Prod.mk.inj (Option.some.inj (hcopied.symm.trans hstep))
  exact hnext

/-- A window of three entries, the first of which has been delivered. -/
def sampleWindow : CacheDirEntries where
  startOff := 7
  endOff := 8
  entries := [ListDirOp.dirDent ⟨2⟩ (ascii "a"), ListDirOp.dirDent ⟨3⟩ (ascii "b"),
    ListDirOp.dirDent ⟨4⟩ (ascii "c")]
  hasMore := true
  length_lt := by decide

section Sample

open scoped Sample

/-- A buffer too small for an entry, one with room for one, and one with room for all. -/
theorem window_delivered_sample :
    sampleWindow.InBounds ∧ ∃ trace cache',
      replay (populateStep entrySize) sampleWindow [10, 40, 4096] = some (trace, cache') ∧
        trace.map Prod.fst = [10, 40, 4096] ∧ Delivered entrySize sampleWindow trace cache' :=
  ⟨by decide, window_delivered entrySize (by decide) [10, 40, 4096]⟩

end Sample

/-! ### The model over natural numbers -/

/-- The cache with its offsets as natural numbers. -/
def toNat (cache : CacheDirEntries) : RocketFS.CacheDirEntries where
  startOff := cache.startOff.toInt.toNat
  endOff := cache.endOff.toInt.toNat
  entries := cache.entries
  hasMore := cache.hasMore

/-- What `fuse_add_direntry` writes for an entry and its offset. -/
def toDirent (w : DEnt × Int64) : Dirent := addDirentry w.1 w.2.toInt.toNat

theorem map_toDirent_stamp (h : cache.InBounds) (hnonneg : 0 ≤ cache.endOff.toInt)
    {es : List DEnt} (hes : es.length ≤ cache.remaining.length) :
    (stamp cache.endOff es).map toDirent =
      streamFrom cache.endOff.toInt.toNat (es.map cEntry) := by
  induction es generalizing cache with
  | nil => rfl
  | cons entry rest ih =>
    rw [List.length_cons] at hes
    obtain ⟨hnext, hremaining, hoff⟩ := h.next (by omega)
    have hnat : (cache.advance 1).endOff.toInt.toNat = cache.endOff.toInt.toNat + 1 := by omega
    rw [stamp_cons, List.map_cons, ih hnext (by omega) (by omega), toDirent, hnat]
    rfl

section ToNat

variable (h : cache.InBounds) (hnonneg : 0 ≤ cache.startOff.toInt)
include h hnonneg

theorem InBounds.toNat_endOff : cache.toNat.endOff = cache.toNat.startOff + cache.copied := by
  have hend := h.endOff_eq
  change cache.endOff.toInt.toNat = cache.startOff.toInt.toNat + cache.copied
  omega

theorem InBounds.toNat : cache.toNat.InBounds := by
  have hcopied := h.copied_le
  have hend := h.toNat_endOff hnonneg
  exact ⟨by omega, by rw [hend]; exact Nat.add_le_add_left hcopied _⟩

theorem InBounds.remaining_toNat : cache.toNat.remaining = cache.remaining := by
  rw [RocketFS.CacheDirEntries.remaining, h.toNat_endOff hnonneg, Nat.add_sub_cancel_left]
  rfl

theorem InBounds.toNat_afterCopying {taken : List DEnt} (htaken : taken <+: cache.remaining) :
    (cache.afterCopying taken).toNat = cache.toNat.afterCopying taken.length := by
  have hend := h.endOff_eq
  have hoff : (cache.advance taken.length).endOff.toInt.toNat =
      cache.toNat.endOff + taken.length := by
    rw [h.toInt_endOff_advance htaken.length_le]
    change _ = cache.endOff.toInt.toNat + taken.length
    omega
  have hall : taken = cache.remaining ↔ taken.length = cache.toNat.remaining.length := by
    rw [h.remaining_toNat hnonneg]
    exact ⟨congrArg List.length, htaken.eq_of_length⟩
  rw [CacheDirEntries.afterCopying, RocketFS.CacheDirEntries.afterCopying, ← hoff]
  simp only [hall]
  split_ifs <;> rfl

theorem InBounds.startOff_afterCopying_nonneg {taken : List DEnt}
    (htaken : taken <+: cache.remaining) : 0 ≤ (cache.afterCopying taken).startOff.toInt := by
  have hend := h.endOff_eq
  have hoff := h.toInt_endOff_advance htaken.length_le
  rw [CacheDirEntries.afterCopying]
  split_ifs
  · change 0 ≤ (cache.advance taken.length).endOff.toInt
    omega
  · exact hnonneg

/-- A call in bounds at offsets that are not negative is a call on natural numbers, and
leaves the cache in bounds at such offsets. -/
theorem populateDirEntriesBuffer_toNat [Libfuse] (size : ℕ) :
    ∃ out cache', cache.populateDirEntriesBuffer entrySize size = some (out, cache') ∧
      cache'.InBounds ∧ 0 ≤ cache'.startOff.toInt ∧
      cache.toNat.populateDirEntriesBuffer size = (out.map toDirent, cache'.toNat) := by
  have htaken := (takeFitting_isLongest entrySize cache.remaining size).isPrefix
  have hend : 0 ≤ cache.endOff.toInt := by
    have hend := h.endOff_eq
    omega
  refine ⟨_, _, populateDirEntriesBuffer_eq h, (h.afterCopying htaken).1,
    h.startOff_afterCopying_nonneg hnonneg htaken, ?_⟩
  rw [(h.toNat hnonneg).populateDirEntriesBuffer_eq, h.remaining_toNat hnonneg,
    map_toDirent_stamp h hend htaken.length_le, h.toNat_afterCopying hnonneg htaken]
  rfl

end ToNat

end CacheDirEntries

end OffT

end RocketFS
