import Mathlib.Data.List.Sort
import Mathlib.Data.List.TakeWhile
import Mathlib.Order.Basic
import Mathlib.Tactic.Convert

/-!
# Finite maps kept in key order

A finite map over a linearly ordered key type, stored as the list of its entries
in strictly increasing key order. The order is a field, so an iterator over the
map is a suffix of that list, and a half-open range of keys is a contiguous
piece of it.

## Main definitions

* `SortedMap` — the map, with its entries and the proof that they are in order
* `SortedMap.lookup`, `SortedMap.insert`, `SortedMap.erase` — point operations
* `SortedMap.eraseUpTo` — remove the keys up to a bound
* `SortedMap.seek` — the entries from a key on, as an iterator positions itself
* `SortedMap.slice` — the entries of a half-open key range

## Main results

* `SortedMap.ext_lookup` — a map is determined by its lookups
* `SortedMap.slice_congr` — a range scan depends on the lookups of its range only
-/

namespace RocketFS

/-- A finite map, stored as its entries in strictly increasing key order. -/
structure SortedMap (κ ν : Type*) [LinearOrder κ] where
  entries : List (κ × ν)
  sorted : entries.Pairwise fun a b => a.1 < b.1

namespace SortedMap

variable {κ ν : Type*} [LinearOrder κ]

/-! ### Entry lists -/

/-- Insert into an ordered entry list, replacing the entry of an equal key. -/
def insertEntry (k : κ) (v : ν) : List (κ × ν) → List (κ × ν)
  | [] => [(k, v)]
  | (k', v') :: rest =>
    if k < k' then (k, v) :: (k', v') :: rest
    else if k = k' then (k, v) :: rest
    else (k', v') :: insertEntry k v rest

theorem mem_insertEntry {k : κ} {v : ν} {e : κ × ν} {l : List (κ × ν)}
    (h : e ∈ insertEntry k v l) : e = (k, v) ∨ e ∈ l := by
  induction l with
  | nil => simpa [insertEntry] using h
  | cons head rest ih =>
    obtain ⟨k', v'⟩ := head
    rw [insertEntry] at h
    split_ifs at h <;> grind

theorem pairwise_insertEntry (k : κ) (v : ν) {l : List (κ × ν)}
    (h : l.Pairwise fun a b => a.1 < b.1) :
    (insertEntry k v l).Pairwise fun a b => a.1 < b.1 := by
  induction l with
  | nil => simp [insertEntry]
  | cons head rest ih =>
    obtain ⟨k', v'⟩ := head
    obtain ⟨hhead, hrest⟩ := List.pairwise_cons.mp h
    rw [insertEntry]
    split_ifs with hlt heq
    · refine List.pairwise_cons.mpr ⟨fun e he => ?_, h⟩
      rcases List.mem_cons.mp he with rfl | he
      · exact hlt
      · exact hlt.trans (hhead e he)
    · subst heq
      exact List.pairwise_cons.mpr ⟨hhead, hrest⟩
    · refine List.pairwise_cons.mpr ⟨fun e he => ?_, ih hrest⟩
      rcases mem_insertEntry he with rfl | he
      · exact lt_of_le_of_ne (not_lt.mp hlt) (Ne.symm heq)
      · exact hhead e he

theorem lookup_cons_eq_ite (k : κ) (e : κ × ν) (l : List (κ × ν)) :
    (e :: l).lookup k = if k = e.1 then some e.2 else l.lookup k := by
  obtain ⟨a, b⟩ := e
  by_cases h : k = a
  · simp [h]
  · have hbeq : (k == a) = false := by simpa using h
    simp [List.lookup_cons, hbeq, h]

theorem lookup_insertEntry (k k' : κ) (v : ν) (l : List (κ × ν)) :
    (insertEntry k v l).lookup k' = if k' = k then some v else l.lookup k' := by
  induction l with
  | nil => simp [insertEntry, lookup_cons_eq_ite]
  | cons head rest ih =>
    obtain ⟨a, b⟩ := head
    rw [insertEntry]
    split_ifs with hlt heq hk hk hk <;> simp only [lookup_cons_eq_ite, ih] <;> grind

/-- In an ordered entry list, being an entry and being looked up coincide. -/
theorem mem_iff_lookup {l : List (κ × ν)} (h : l.Pairwise fun a b => a.1 < b.1)
    {k : κ} {v : ν} : (k, v) ∈ l ↔ l.lookup k = some v := by
  induction l with
  | nil => simp
  | cons head rest ih =>
    obtain ⟨a, b⟩ := head
    obtain ⟨hhead, hrest⟩ := List.pairwise_cons.mp h
    by_cases hk : k = a
    · subst hk
      have hnot : (k, v) ∉ rest := fun hmem => lt_irrefl k (hhead _ hmem)
      simp [hnot, eq_comm]
    · simp [lookup_cons_eq_ite, hk, ih hrest]

/-! ### The map -/

/-- The map without entries. -/
def empty : SortedMap κ ν := ⟨[], List.Pairwise.nil⟩

/-- The value stored under a key. -/
def lookup (m : SortedMap κ ν) (k : κ) : Option ν := m.entries.lookup k

/-- Store a value under a key. -/
def insert (m : SortedMap κ ν) (k : κ) (v : ν) : SortedMap κ ν :=
  ⟨insertEntry k v m.entries, pairwise_insertEntry k v m.sorted⟩

/-- Remove a key. -/
def erase (m : SortedMap κ ν) (k : κ) : SortedMap κ ν :=
  ⟨m.entries.filter fun e => e.1 ≠ k, m.sorted.filter _⟩

/-- Remove the keys up to and including `k`: `erase(begin(), upper_bound(k))`. -/
def eraseUpTo (m : SortedMap κ ν) (k : κ) : SortedMap κ ν :=
  ⟨m.entries.dropWhile fun e => e.1 ≤ k, m.sorted.sublist (List.dropWhile_sublist _)⟩

variable {m m' : SortedMap κ ν} {k k' : κ} {v : ν}

@[simp] theorem lookup_empty (k : κ) : (empty : SortedMap κ ν).lookup k = none := rfl

theorem mem_entries : (k, v) ∈ m.entries ↔ m.lookup k = some v :=
  mem_iff_lookup m.sorted

theorem lookup_mk_cons {e : κ × ν} {rest : List (κ × ν)}
    (h : (e :: rest).Pairwise fun a b => a.1 < b.1) (k : κ) :
    (⟨e :: rest, h⟩ : SortedMap κ ν).lookup k =
      if k = e.1 then some e.2
      else (⟨rest, (List.pairwise_cons.mp h).2⟩ : SortedMap κ ν).lookup k :=
  lookup_cons_eq_ite k e rest

theorem lookup_eq_none_of_lt {entries : List (κ × ν)}
    (h : entries.Pairwise fun a b => a.1 < b.1) (hk : ∀ e ∈ entries, k < e.1) :
    (⟨entries, h⟩ : SortedMap κ ν).lookup k = none := by
  rw [lookup, List.lookup_eq_none_iff]
  intro e he
  simpa using (hk e he).ne

theorem lookup_insert (m : SortedMap κ ν) (k k' : κ) (v : ν) :
    (m.insert k v).lookup k' = if k' = k then some v else m.lookup k' :=
  lookup_insertEntry k k' v m.entries

theorem lookup_erase (m : SortedMap κ ν) (k k' : κ) :
    (m.erase k).lookup k' = if k' = k then none else m.lookup k' := by
  refine Option.ext fun v => ?_
  rw [← mem_entries]
  split_ifs with h
  · simp [erase, h]
  · simp [erase, h, mem_entries]

/-- A list in key order is determined by its members. -/
theorem eq_of_mem_iff {l l' : List (κ × ν)} (h : l.Pairwise fun a b => a.1 < b.1)
    (h' : l'.Pairwise fun a b => a.1 < b.1) (hmem : ∀ e, e ∈ l ↔ e ∈ l') : l = l' := by
  have hnodup : ∀ l : List (κ × ν), (l.Pairwise fun a b => a.1 < b.1) → l.Nodup :=
    fun l hl => hl.imp fun hab => mt (congrArg Prod.fst) hab.ne
  have hperm : l.Perm l' := (List.perm_ext_iff_of_nodup (hnodup l h) (hnodup l' h')).mpr hmem
  exact hperm.eq_of_pairwise (fun a b _ _ hab hba => absurd hab (not_lt.mpr hba.le)) h h'

/-- The first `n` entries of a list in key order form an initial segment of it. -/
theorem mem_take_of_le {l : List (κ × ν)} (h : l.Pairwise fun a b => a.1 < b.1) {n : ℕ}
    {e last : κ × ν} (hlast : last ∈ l.take n) (he : e ∈ l) (hle : e.1 ≤ last.1) :
    e ∈ l.take n := by
  rw [← List.take_append_drop n l] at h he
  rcases List.mem_append.mp he with he | he
  · exact he
  · exact absurd ((List.pairwise_append.mp h).2.2 last hlast e he) (not_lt.mpr hle)

/-- The last of the first `n` entries stands behind all entries exactly when there are no more
than `n`. -/
theorem forall_le_last_take_iff {l : List (κ × ν)} (h : l.Pairwise fun a b => a.1 < b.1) {n : ℕ}
    {last : κ × ν} (hlast : (l.take n).getLast? = some last) :
    (∀ e ∈ l, e.1 ≤ last.1) ↔ l.length ≤ n := by
  constructor
  · intro hall
    by_contra hlt
    obtain ⟨e, rest, hdrop⟩ := List.exists_cons_of_length_pos (l := l.drop n)
      (by rw [List.length_drop]; omega)
    have he : e ∈ l.drop n := hdrop ▸ List.mem_cons_self
    rw [← List.take_append_drop n l] at h
    have hbehind := (List.pairwise_append.mp h).2.2 last (List.mem_of_getLast? hlast) e he
    exact absurd (hall e (List.mem_of_mem_drop he)) (not_le.mpr hbehind)
  · intro hle e he
    rw [List.take_of_length_le hle] at hlast
    obtain ⟨front, rfl⟩ := List.getLast?_eq_some_iff.mp hlast
    rcases List.mem_append.mp he with he | he
    · exact ((List.pairwise_append.mp h).2.2 e he last (List.mem_singleton_self _)).le
    · rw [List.mem_singleton.mp he]

/-- A map is determined by its lookups. -/
theorem ext_lookup (h : ∀ k, m.lookup k = m'.lookup k) : m = m' := by
  have hentries : m.entries = m'.entries := by
    refine eq_of_mem_iff m.sorted m'.sorted ?_
    rintro ⟨k, v⟩
    rw [mem_entries, mem_entries, h k]
  cases m
  cases m'
  simpa using hentries

/-! ### Iterators and ranges -/

/-- The entries from the first key that is not below `start` on: where an
iterator stands after seeking. -/
def seek (m : SortedMap κ ν) (start : κ) : List (κ × ν) :=
  m.entries.dropWhile fun e => e.1 < start

/-- The entries with a key in `[start, stop)`, in key order. -/
def slice (m : SortedMap κ ν) (start stop : κ) : List (κ × ν) :=
  m.entries.filter fun e => start ≤ e.1 ∧ e.1 < stop

/-- Once a predicate fails it keeps failing: dropping while it holds drops all its members. -/
theorem dropWhile_eq_filter {α : Type*} {p : α → Bool} {l : List α}
    (h : l.Pairwise fun a b => p b → p a) : l.dropWhile p = l.filter fun a => !p a := by
  induction l with
  | nil => rfl
  | cons head rest ih =>
    obtain ⟨hhead, hrest⟩ := List.pairwise_cons.mp h
    by_cases hp : p head
    · rw [List.dropWhile_cons_of_pos hp, List.filter_cons_of_neg (by simpa using hp), ih hrest]
    · rw [List.dropWhile_cons_of_neg hp, eq_comm, List.filter_eq_self]
      intro a ha
      rcases List.mem_cons.mp ha with rfl | ha
      · simpa using hp
      · simpa using mt (hhead a ha) hp

/-- Once a predicate fails it keeps failing: taking while it holds takes all its members. -/
theorem takeWhile_eq_filter {α : Type*} {p : α → Bool} {l : List α}
    (h : l.Pairwise fun a b => p b → p a) : l.takeWhile p = l.filter p := by
  induction l with
  | nil => rfl
  | cons head rest ih =>
    obtain ⟨hhead, hrest⟩ := List.pairwise_cons.mp h
    by_cases hp : p head
    · rw [List.takeWhile_cons_of_pos hp, List.filter_cons_of_pos hp, ih hrest]
    · rw [List.takeWhile_cons_of_neg hp, List.filter_cons_of_neg hp, eq_comm,
        List.filter_eq_nil_iff]
      exact fun a ha => mt (hhead a ha) hp

theorem mem_eraseUpTo {e : κ × ν} : e ∈ (m.eraseUpTo k).entries ↔ e ∈ m.entries ∧ k < e.1 := by
  have hclosed : m.entries.Pairwise fun a b =>
      decide (b.1 ≤ k) = true → decide (a.1 ≤ k) = true :=
    m.sorted.imp fun hab hb => by simpa using hab.le.trans (of_decide_eq_true hb)
  change e ∈ m.entries.dropWhile _ ↔ _
  rw [dropWhile_eq_filter hclosed]
  simp

theorem seek_eq_filter (m : SortedMap κ ν) (start : κ) :
    m.seek start = m.entries.filter fun e => start ≤ e.1 := by
  have hclosed : m.entries.Pairwise fun a b =>
      decide (b.1 < start) = true → decide (a.1 < start) = true :=
    m.sorted.imp fun hab hb => by simpa using hab.trans (of_decide_eq_true hb)
  rw [seek, dropWhile_eq_filter hclosed]
  refine List.filter_congr fun e _ => ?_
  simp only [← decide_not, not_lt]

private theorem takeWhile_seek (m : SortedMap κ ν) (start stop : κ) :
    ((m.seek start).takeWhile fun e => e.1 < stop) = m.slice start stop := by
  have hclosed : (m.seek start).Pairwise fun a b =>
      decide (b.1 < stop) = true → decide (a.1 < stop) = true := by
    rw [seek_eq_filter]
    exact (m.sorted.filter _).imp fun hab hb => by simpa using hab.trans (of_decide_eq_true hb)
  rw [takeWhile_eq_filter hclosed, seek_eq_filter, List.filter_filter, slice]
  refine List.filter_congr fun e _ => ?_
  simp [Bool.and_comm]

/-- Scanning from `start` while the key stays below `stop` visits the slice. A
concrete key type may decide its order by an instance of its own. -/
theorem seek_takeWhile (m : SortedMap κ ν) (start stop : κ)
    [inst : ∀ e : κ × ν, Decidable (e.1 < stop)] :
    ((m.seek start).takeWhile fun e => @decide (e.1 < stop) (inst e)) = m.slice start stop := by
  convert m.takeWhile_seek start stop

theorem mem_slice {start stop : κ} :
    (k, v) ∈ m.slice start stop ↔ m.lookup k = some v ∧ start ≤ k ∧ k < stop := by
  simp [slice, mem_entries]

/-- The entries from `lower_bound(start)` up to `upper_bound(last)`: the iterator pair of a
closed key interval. -/
theorem mem_seek_takeWhile_le {start last : κ}
    [inst : ∀ e : κ × ν, Decidable (e.1 ≤ last)] {e : κ × ν} :
    (e ∈ (m.seek start).takeWhile fun e => @decide (e.1 ≤ last) (inst e)) ↔
      e ∈ m.entries ∧ start ≤ e.1 ∧ e.1 ≤ last := by
  have hclosed : (m.seek start).Pairwise fun a b =>
      decide (b.1 ≤ last) = true → decide (a.1 ≤ last) = true := by
    rw [seek_eq_filter]
    exact (m.sorted.filter _).imp fun hab hb => by simpa using hab.le.trans (of_decide_eq_true hb)
  rw [takeWhile_eq_filter hclosed, seek_eq_filter]
  simp [and_comm]

theorem slice_sorted (m : SortedMap κ ν) (start stop : κ) :
    (m.slice start stop).Pairwise fun a b => a.1 < b.1 :=
  m.sorted.filter _

/-- Maps that agree on a key range have the same slice there. -/
theorem slice_congr {start stop : κ}
    (h : ∀ k, start ≤ k → k < stop → m.lookup k = m'.lookup k) :
    m.slice start stop = m'.slice start stop := by
  refine eq_of_mem_iff (m.slice_sorted start stop) (m'.slice_sorted start stop) ?_
  rintro ⟨k, v⟩
  rw [mem_slice, mem_slice]
  refine and_congr_left ?_
  rintro ⟨hstart, hstop⟩
  rw [h k hstart hstop]

end SortedMap

end RocketFS
