import Mathlib.Data.List.Nodup
import Mathlib.Logic.Function.Basic

/-!
# Batches of row updates

A table keeps each row as one record, a value under a key. Rows are updated
incrementally: a record that moves is removed and put, one that changes in place is
put, and one that does not change is left alone. The operations of all updates go
into one batch, in which the last operation on a key wins.

For one update this gives what removing the old record and adding the new one gives.
For several it does not: the removal of an old record can hit the record another
update has already put under that key. It is right exactly when no update removes,
after the fact, what an earlier one has put.

## Main definitions

* `applyOps` — a map after a batch of operations
* `Layout` — the key and the value of a row's record
* `Layout.Rewrite` — the operations of one incremental update
* `Layout.Stores` — a map holds the records of a list of rows and nothing else
* `replaceRows` — a list of rows with some of them replaced

## Main results

* `Layout.Rewrite.applyOps_eq` — one update is a removal and an addition
* `Layout.stores_applyOps_iff` — when a batch of updates replaces the rows
-/

namespace RocketFS

/-! ### Operations -/

section Ops

variable {κ ν : Type*} [DecidableEq κ] {m : κ → Option ν} {k : κ}
  {ops ops' : List (κ × Option ν)}

/-- A map after a batch of operations, the first one first: `some` puts a value under the
key, `none` removes the key. -/
def applyOps (m : κ → Option ν) (ops : List (κ × Option ν)) : κ → Option ν :=
  ops.foldl (fun m op => Function.update m op.1 op.2) m

@[simp] theorem applyOps_nil : applyOps m [] = m := rfl

@[simp] theorem applyOps_cons (op : κ × Option ν) :
    applyOps m (op :: ops) = applyOps (Function.update m op.1 op.2) ops := rfl

theorem applyOps_append : applyOps m (ops ++ ops') = applyOps (applyOps m ops) ops' :=
  List.foldl_append

theorem applyOps_of_untouched (h : ∀ op ∈ ops, op.1 ≠ k) : applyOps m ops k = m k := by
  induction ops generalizing m with
  | nil => rfl
  | cons op rest ih =>
    obtain ⟨hop, hrest⟩ := List.forall_mem_cons.mp h
    rw [applyOps_cons, ih hrest, Function.update_of_ne hop.symm]

/-- A key that is only removed stays absent. -/
theorem applyOps_eq_none (hm : m k = none) (h : ∀ op ∈ ops, op.1 = k → op.2 = none) :
    applyOps m ops k = none := by
  induction ops generalizing m with
  | nil => exact hm
  | cons op rest ih =>
    obtain ⟨hop, hrest⟩ := List.forall_mem_cons.mp h
    rw [applyOps_cons]
    refine ih ?_ hrest
    by_cases hk : op.1 = k
    · rw [← hk, Function.update_self, hop hk]
    · rw [Function.update_of_ne (Ne.symm hk), hm]

end Ops

/-! ### One update -/

/-- Where a row keeps its record, and what the record is. -/
structure Layout (ρ κ ν : Type*) where
  key : ρ → κ
  val : ρ → ν

namespace Layout

section Rewrite

variable {ρ κ ν : Type*} (L : Layout ρ κ ν)

/-- The operations that turn the record of one row into that of another; `none` stands for
no row. -/
inductive Rewrite : Option ρ → Option ρ → List (κ × Option ν) → Prop
  | nothing : Rewrite none none []
  | insert (new : ρ) : Rewrite none (some new) [(L.key new, some (L.val new))]
  | delete (old : ρ) : Rewrite (some old) none [(L.key old, none)]
  | move (old new : ρ) (hkey : L.key old ≠ L.key new) :
      Rewrite (some old) (some new) [(L.key old, none), (L.key new, some (L.val new))]
  | replace (old new : ρ) (hkey : L.key old = L.key new) :
      Rewrite (some old) (some new) [(L.key new, some (L.val new))]
  | keep (old new : ρ) (hkey : L.key old = L.key new) (hval : L.val old = L.val new) :
      Rewrite (some old) (some new) []

variable {L} {old new : ρ} {ops : List (κ × Option ν)}

/-- An update operates on the new key, and on the old one if it moves the record. -/
theorem Rewrite.key_cases (h : L.Rewrite (some old) (some new) ops) {op : κ × Option ν}
    (hop : op ∈ ops) : op.1 = L.key new ∨ op.1 = L.key old ∧ op.2 = none := by
  cases h with
  | move _ _ hkey =>
    rcases List.mem_pair.mp hop with rfl | rfl
    · exact .inr ⟨rfl, rfl⟩
    · exact .inl rfl
  | replace _ _ hkey => exact .inl (by rw [List.mem_singleton.mp hop])
  | keep _ _ hkey hval => cases hop

variable [DecidableEq κ] {m : κ → Option ν}

/-- A map without the record of a row. -/
def remove (L : Layout ρ κ ν) (m : κ → Option ν) : Option ρ → κ → Option ν
  | none => m
  | some row => Function.update m (L.key row) none

/-- A map with the record of a row. -/
def add (L : Layout ρ κ ν) (m : κ → Option ν) : Option ρ → κ → Option ν
  | none => m
  | some row => Function.update m (L.key row) (some (L.val row))

/-- An incremental update of a map that holds the old record removes it and adds the
new one. -/
theorem Rewrite.applyOps_eq {old new : Option ρ} (h : L.Rewrite old new ops)
    (hold : ∀ row ∈ old, m (L.key row) = some (L.val row)) :
    applyOps m ops = L.add (L.remove m old) new := by
  cases h with
  | nothing => rfl
  | insert new => rfl
  | delete old => rfl
  | move old new hkey => rfl
  | replace old new hkey =>
    -- the value is put over the old one, so the removal makes no difference
    simp only [applyOps_cons, applyOps_nil, add, remove, hkey, Function.update_idem]
  | keep old new hkey hval =>
    -- the record that would be removed and added again is there already
    have hstored : m (L.key new) = some (L.val new) := by rw [← hkey, ← hval, hold old rfl]
    simp only [applyOps_nil, add, remove, hkey, Function.update_idem]
    rw [← hstored, Function.update_eq_self]

/-- After an update the new record is there, unless nothing had to be done. -/
theorem Rewrite.applyOps_new (h : L.Rewrite (some old) (some new) ops) :
    applyOps m ops (L.key new) = some (L.val new) ∨
      ops = [] ∧ L.key old = L.key new ∧ L.val old = L.val new := by
  cases h with
  | move _ _ hkey => exact .inl (by simp)
  | replace _ _ hkey => exact .inl (by simp)
  | keep _ _ hkey hval => exact .inr ⟨rfl, hkey, hval⟩

/-- An update that moves a record removes the old one. -/
theorem Rewrite.applyOps_old (h : L.Rewrite (some old) (some new) ops)
    (hkey : L.key old ≠ L.key new) : applyOps m ops (L.key old) = none := by
  cases h with
  | move => simp [hkey]
  | replace _ _ heq => exact absurd heq hkey
  | keep _ _ heq => exact absurd heq hkey

end Rewrite

end Layout

/-! ### Several updates -/

/-- The rows with the first component of each update replaced by the second. -/
def replaceRows {ρ : Type*} [DecidableEq ρ] (rows : List ρ) (updates : List (ρ × ρ)) : List ρ :=
  (rows.filter fun row => row ∉ updates.map Prod.fst) ++ updates.map Prod.snd

namespace Layout

variable {ρ κ ν : Type*} (L : Layout ρ κ ν)

/-- The map holds the records of the rows and nothing else. -/
def Stores (m : κ → Option ν) (rows : List ρ) : Prop :=
  ∀ k v, m k = some v ↔ ∃ row ∈ rows, L.key row = k ∧ L.val row = v

theorem stores_nil : L.Stores (fun _ => none) [] := by
  intro k v
  simp

variable {L} in
/-- The record of a row with a key of its own is added. -/
theorem Stores.add [DecidableEq κ] {m : κ → Option ν} {rows : List ρ} {new : ρ}
    (h : L.Stores m rows) (hnew : ∀ row ∈ rows, L.key row ≠ L.key new) :
    L.Stores (L.add m (some new)) (rows ++ [new]) := by
  intro k v
  simp only [Layout.add, List.mem_append, List.mem_singleton]
  by_cases hk : k = L.key new
  · -- the new row is the only one with this key
    subst hk
    rw [Function.update_self, Option.some.injEq]
    constructor
    · rintro rfl
      exact ⟨new, .inr rfl, rfl, rfl⟩
    · rintro ⟨row, hrow | rfl, hkey, hval⟩
      · exact absurd hkey (hnew row hrow)
      · exact hval
  · rw [Function.update_of_ne hk, h k v]
    constructor
    · rintro ⟨row, hrow, hkey, hval⟩
      exact ⟨row, .inl hrow, hkey, hval⟩
    · rintro ⟨row, hrow | rfl, hkey, hval⟩
      · exact ⟨row, hrow, hkey, hval⟩
      · exact absurd hkey.symm hk

/-- Each update of a list is carried out by the operations given for it. -/
def Rewrites (opsOf : ρ × ρ → List (κ × Option ν)) (updates : List (ρ × ρ)) : Prop :=
  ∀ u ∈ updates, L.Rewrite (some u.1) (some u.2) (opsOf u)

/-- What a batch of updates is applied to: the rows are stored under distinct keys, the
updates replace distinct ones of them, and what they are replaced by has distinct keys
again. -/
structure Replaces [DecidableEq ρ] (m : κ → Option ν) (rows : List ρ)
    (updates : List (ρ × ρ)) : Prop where
  stored : L.Stores m rows
  keys : (rows.map L.key).Nodup
  mem : ∀ u ∈ updates, u.1 ∈ rows
  distinct : (updates.map Prod.fst).Nodup
  newKeys : ((replaceRows rows updates).map L.key).Nodup

variable {L} [DecidableEq ρ] {m : κ → Option ν} {rows : List ρ} {updates : List (ρ × ρ)}
  {opsOf : ρ × ρ → List (κ × Option ν)} {u v : ρ × ρ}

namespace Replaces

theorem newKeys_pairwise (h : L.Replaces m rows updates) :
    updates.Pairwise fun u v => L.key u.2 ≠ L.key v.2 := by
  have hnodup := h.newKeys
  rw [replaceRows, List.map_append, List.nodup_append, List.map_map] at hnodup
  exact List.pairwise_map.mp hnodup.2.1

theorem distinct_pairwise (h : L.Replaces m rows updates) :
    updates.Pairwise fun u v => u.1 ≠ v.1 :=
  List.pairwise_map.mp h.distinct

/-- Two updates of rows with one key are updates of one row. -/
theorem old_inj (h : L.Replaces m rows updates) (hu : u ∈ updates) (hv : v ∈ updates)
    (hkey : L.key u.1 = L.key v.1) : u.1 = v.1 :=
  List.inj_on_of_nodup_map h.keys (h.mem u hu) (h.mem v hv) hkey

/-- A row that is not replaced has another key than one that is. -/
theorem kept_key_ne (h : L.Replaces m rows updates) {row : ρ} (hrow : row ∈ rows)
    (hkept : row ∉ updates.map Prod.fst) (hu : u ∈ updates) : L.key row ≠ L.key u.1 := by
  intro hkey
  refine hkept ?_
  rw [List.inj_on_of_nodup_map h.keys hrow (h.mem u hu) hkey]
  exact List.mem_map_of_mem hu

end Replaces

variable [DecidableEq κ]

omit [DecidableEq ρ] in
/-- A key no update uses keeps its value. -/
theorem Rewrites.get_untouched {k : κ} (hops : L.Rewrites opsOf updates)
    (hold : ∀ u ∈ updates, L.key u.1 ≠ k) (hnew : ∀ u ∈ updates, L.key u.2 ≠ k) :
    applyOps m (updates.flatMap opsOf) k = m k := by
  refine applyOps_of_untouched fun op hop hk => ?_
  obtain ⟨u, hu, hop⟩ := List.mem_flatMap.mp hop
  rcases (hops u hu).key_cases hop with hkey | ⟨hkey, _⟩
  · exact hnew u hu (hkey.symm.trans hk)
  · exact hold u hu (hkey.symm.trans hk)

omit [DecidableEq ρ] in
/-- A key that is absent and under which no update puts a record stays absent. -/
theorem Rewrites.get_absent {k : κ} (hops : L.Rewrites opsOf updates) (hm : m k = none)
    (hnew : ∀ u ∈ updates, L.key u.2 ≠ k) : applyOps m (updates.flatMap opsOf) k = none := by
  refine applyOps_eq_none hm fun op hop hk => ?_
  obtain ⟨u, hu, hop⟩ := List.mem_flatMap.mp hop
  rcases (hops u hu).key_cases hop with hkey | ⟨_, hdel⟩
  · exact absurd (hkey.symm.trans hk) (hnew u hu)
  · exact hdel

omit [DecidableEq ρ] in
/-- A record that is removed and that nobody puts back is gone. -/
theorem Rewrites.get_removed {before after : List (ρ × ρ)}
    (hops : L.Rewrites opsOf (before ++ u :: after)) (hkey : L.key u.1 ≠ L.key u.2)
    (hafter : ∀ v ∈ after, L.key v.2 ≠ L.key u.1) :
    applyOps m ((before ++ u :: after).flatMap opsOf) (L.key u.1) = none := by
  have hu := hops u (by simp)
  have hrest : L.Rewrites opsOf after := fun v hv => hops v (by simp [hv])
  rw [List.flatMap_append, List.flatMap_cons, applyOps_append, applyOps_append]
  exact hrest.get_absent (hu.applyOps_old hkey) hafter

/-- Where no update removes what an earlier one has put, every new record is there. -/
theorem Replaces.get_new (h : L.Replaces m rows updates) (hops : L.Rewrites opsOf updates)
    (horder : updates.Pairwise fun u v => L.key u.2 ≠ L.key v.1) (hu : u ∈ updates) :
    applyOps m (updates.flatMap opsOf) (L.key u.2) = some (L.val u.2) := by
  obtain ⟨before, after, rfl⟩ := List.append_of_mem hu
  have hbefore : L.Rewrites opsOf before := fun v hv => hops v (by simp [hv])
  have hafter : L.Rewrites opsOf after := fun v hv => hops v (by simp [hv])
  obtain ⟨_, hnewKeys, hnewBefore⟩ := List.pairwise_append.mp h.newKeys_pairwise
  obtain ⟨_, hdistinct, hdistinctBefore⟩ := List.pairwise_append.mp h.distinct_pairwise
  obtain ⟨_, horderAfter, _⟩ := List.pairwise_append.mp horder
  -- what comes after `u` does not touch its new key
  rw [List.flatMap_append, List.flatMap_cons, applyOps_append, applyOps_append,
    hafter.get_untouched]
  · rcases (hops u (by simp)).applyOps_new with hput | ⟨hnil, hkey, hval⟩
    · exact hput
    · -- the update had nothing to do, so the record is the old one, which nobody touched
      rw [hnil, applyOps_nil, hbefore.get_untouched]
      · exact (h.stored _ _).mpr ⟨u.1, h.mem u (by simp), hkey, hval⟩
      · intro v hv hold
        have heq := h.old_inj (by simp [hv]) (by simp) (hold.trans hkey.symm)
        exact hdistinctBefore v hv u (by simp) heq
      · intro v hv
        exact hnewBefore v hv u (by simp)
  · intro v hv
    exact ((List.pairwise_cons.mp horderAfter).1 v hv).symm
  · intro v hv
    exact ((List.pairwise_cons.mp hnewKeys).1 v hv).symm

omit [DecidableEq κ] in
theorem mem_replaceRows {row : ρ} : row ∈ replaceRows rows updates ↔
    (row ∈ rows ∧ row ∉ updates.map Prod.fst) ∨ ∃ u ∈ updates, u.2 = row := by
  simp [replaceRows]

omit [DecidableEq κ] in
/-- A key under which no update puts a record is a key of the new rows exactly when it is a
key of the rows that are kept. -/
theorem exists_new_row_iff {k : κ} {v : ν} (hnew : ∀ u ∈ updates, L.key u.2 ≠ k) :
    (∃ row ∈ replaceRows rows updates, L.key row = k ∧ L.val row = v) ↔
      ∃ row ∈ rows, row ∉ updates.map Prod.fst ∧ L.key row = k ∧ L.val row = v := by
  constructor
  · rintro ⟨row, hrow, hkey, hval⟩
    rcases mem_replaceRows.mp hrow with ⟨hmem, hkept⟩ | ⟨u, hu, rfl⟩
    · exact ⟨row, hmem, hkept, hkey, hval⟩
    · exact absurd hkey (hnew u hu)
  · rintro ⟨row, hmem, hkept, hkey, hval⟩
    exact ⟨row, mem_replaceRows.mpr (.inl ⟨hmem, hkept⟩), hkey, hval⟩

/-- Where no update removes what an earlier one has put, the new rows are stored. -/
theorem Replaces.stores (h : L.Replaces m rows updates) (hops : L.Rewrites opsOf updates)
    (horder : updates.Pairwise fun u v => L.key u.2 ≠ L.key v.1) :
    L.Stores (applyOps m (updates.flatMap opsOf)) (replaceRows rows updates) := by
  intro k v
  -- a key is put by an update, is only removed, or is left alone
  by_cases hput : ∃ u ∈ updates, L.key u.2 = k
  · obtain ⟨u, hu, rfl⟩ := hput
    have hmem : u.2 ∈ replaceRows rows updates := mem_replaceRows.mpr (.inr ⟨u, hu, rfl⟩)
    rw [h.get_new hops horder hu, Option.some.injEq]
    constructor
    · rintro rfl
      exact ⟨u.2, hmem, rfl, rfl⟩
    · rintro ⟨row, hrow, hkey, rfl⟩
      rw [List.inj_on_of_nodup_map h.newKeys hrow hmem hkey]
  · have hnew : ∀ u ∈ updates, L.key u.2 ≠ k := fun u hu hkey => hput ⟨u, hu, hkey⟩
    rw [exists_new_row_iff hnew]
    by_cases hold : ∃ u ∈ updates, L.key u.1 = k
    · -- the record moved away, and only a replaced row had this key
      obtain ⟨u, hu, rfl⟩ := hold
      obtain ⟨before, after, rfl⟩ := List.append_of_mem hu
      rw [hops.get_removed (hnew u hu).symm fun v hv => hnew v (by simp [hv])]
      constructor
      · intro hnone
        cases hnone
      · rintro ⟨row, hrow, hkept, hkey, _⟩
        exact absurd hkey (h.kept_key_ne hrow hkept hu)
    · -- whoever has this key is not replaced
      rw [hops.get_untouched (fun u hu hkey => hold ⟨u, hu, hkey⟩) hnew, h.stored k v]
      refine exists_congr fun row => and_congr_right fun _ => ?_
      constructor
      · rintro ⟨hkey, hval⟩
        refine ⟨fun hmem => ?_, hkey, hval⟩
        obtain ⟨u, hu, rfl⟩ := List.mem_map.mp hmem
        exact hold ⟨u, hu, hkey⟩
      · exact fun hrow => hrow.2

/-- A batch of updates replaces the rows exactly when no update removes the record an
earlier one has put under that key. -/
theorem stores_applyOps_iff (h : L.Replaces m rows updates) (hops : L.Rewrites opsOf updates) :
    L.Stores (applyOps m (updates.flatMap opsOf)) (replaceRows rows updates) ↔
      updates.Pairwise fun u v => L.key u.2 ≠ L.key v.1 := by
  refine ⟨fun hstores => ?_, h.stores hops⟩
  have hnewKeys : ∀ {u v}, [u, v].Sublist updates → L.key u.2 ≠ L.key v.2 :=
    List.pairwise_iff_forall_sublist.mp h.newKeys_pairwise
  refine List.pairwise_iff_forall_sublist.mpr fun {u v} hsub hkey => ?_
  -- the later update `v` removes what the earlier update `u` has put
  obtain ⟨front, rest, rfl, hu, hv⟩ := List.cons_sublist_iff.mp hsub
  obtain ⟨middle, after, rfl⟩ := List.append_of_mem (List.singleton_sublist.mp hv)
  have hstored := (hstores (L.key u.2) (L.val u.2)).mpr
    ⟨u.2, mem_replaceRows.mpr (.inr ⟨u, by simp [hu], rfl⟩), rfl, rfl⟩
  have hmoved : L.key v.1 ≠ L.key v.2 := hkey ▸ hnewKeys hsub
  have hafter : ∀ w ∈ after, L.key w.2 ≠ L.key v.1 := by
    -- new keys are distinct, so nobody puts the record of `u` back
    intro w hw
    rw [← hkey]
    refine (hnewKeys ?_).symm
    refine List.cons_sublist_iff.mpr ⟨front, _, rfl, hu, List.singleton_sublist.mpr ?_⟩
    simp [hw]
  rw [hkey, ← List.append_assoc] at hstored
  rw [← List.append_assoc] at hops
  rw [hops.get_removed hmoved hafter] at hstored
  cases hstored

end Layout

end RocketFS
