import Mathlib.Data.List.Induction
import Mathlib.Data.List.Nodup
import Mathlib.Logic.Function.Iterate

/-!
# Rows in the order of their creation

A table whose rows name a parent. When every row is created after its parent, the
rows form a tree over the root: following the parents ends at the root, and no row
is its own ancestor. The order of creation is all that is needed, whatever the
depth.

## Main definitions

* `CreationOrder` — distinct ids, none of them the root, parents before children
* `lastRow` — the row that was created last among those with a property

## Main results

* `CreationOrder.exists_iterate_eq_root` — following the parents ends at the root
* `lastRow_of_unique` — a row that is the only one with a property
-/

namespace RocketFS

variable {α κ : Type*}

/-- Rows listed in the order of their creation: ids are distinct and not the root's,
and the parent of a row is the root or was created before it. -/
structure CreationOrder (id parent : α → κ) (root : κ) (rows : List α) : Prop where
  nodup : (rows.map id).Nodup
  root_not_mem : root ∉ rows.map id
  parents : ∀ before row after, rows = before ++ row :: after →
    parent row = root ∨ ∃ e ∈ before, id e = parent row

namespace CreationOrder

variable {id parent : α → κ} {root : κ} {rows : List α} {row row' : α}

theorem dropLast (h : CreationOrder id parent root (rows ++ [row])) :
    CreationOrder id parent root rows where
  nodup := by
    have hnodup := h.nodup
    rw [List.map_append] at hnodup
    exact hnodup.of_append_left
  root_not_mem hmem := h.root_not_mem (by
    rw [List.map_append]
    exact List.mem_append_left _ hmem)
  parents before r after heq := by
    exact h.parents before r (after ++ [row]) (by simp [heq])

/-- A row is created with a new id, and after its parent. -/
theorem snoc (h : CreationOrder id parent root rows) (hroot : id row ≠ root)
    (hnew : ∀ r ∈ rows, id r ≠ id row)
    (hparent : parent row = root ∨ ∃ e ∈ rows, id e = parent row) :
    CreationOrder id parent root (rows ++ [row]) where
  nodup := by
    rw [List.map_append, List.map_singleton, ← List.concat_eq_append]
    refine h.nodup.concat fun hmem => ?_
    obtain ⟨r, hr, heq⟩ := List.mem_map.mp hmem
    exact hnew r hr heq
  root_not_mem hmem := by
    rw [List.map_append, List.map_singleton, List.mem_append, List.mem_singleton] at hmem
    exact hmem.elim h.root_not_mem fun heq => hroot heq.symm
  parents before r after heq := by
    rcases List.eq_nil_or_concat after with rfl | ⟨rest, last, rfl⟩
    · obtain ⟨rfl, hlast⟩ := List.append_inj' heq rfl
      obtain rfl := List.singleton_inj.mp hlast
      exact hparent
    · have hcut : rows ++ [row] = (before ++ r :: rest) ++ [last] := by simpa using heq
      obtain ⟨hrows, _⟩ := List.append_inj' hcut rfl
      exact h.parents before r rest hrows

theorem id_inj (h : CreationOrder id parent root rows) (hrow : row ∈ rows) (hrow' : row' ∈ rows)
    (heq : id row = id row') : row = row' :=
  List.inj_on_of_nodup_map h.nodup hrow hrow' heq

/-- The parent of a row is the root or another row. -/
theorem parent_cases (h : CreationOrder id parent root rows) (hrow : row ∈ rows) :
    parent row = root ∨ ∃ e ∈ rows, id e = parent row ∧ id e ≠ id row := by
  obtain ⟨before, after, rfl⟩ := List.append_of_mem hrow
  refine (h.parents before row after rfl).imp_right ?_
  rintro ⟨e, he, hid⟩
  refine ⟨e, List.mem_append_left _ he, hid, fun heq => ?_⟩
  have hnodup := h.nodup
  rw [List.map_append, List.map_cons] at hnodup
  exact (List.nodup_append.mp hnodup).2.2 (id e) (List.mem_map_of_mem he) (id row)
    List.mem_cons_self heq

/-- Following the parents of a row ends at the root. -/
theorem exists_iterate_eq_root (h : CreationOrder id parent root rows) {step : κ → κ}
    (hstep : ∀ r ∈ rows, step (id r) = parent r) (hrow : row ∈ rows) :
    ∃ n, step^[n] (id row) = root := by
  induction rows using List.reverseRecOn generalizing row with
  | nil => exact absurd hrow List.not_mem_nil
  | append_singleton rows last ih =>
    have hearlier : ∀ r ∈ rows, ∃ n, step^[n] (id r) = root := fun r hr =>
      ih h.dropLast (fun r hr => hstep r (List.mem_append_left _ hr)) hr
    rcases List.mem_append.mp hrow with hrow | hrow
    · exact hearlier row hrow
    · obtain rfl := List.mem_singleton.mp hrow
      have hlast := hstep row (by simp)
      rcases h.parents rows row [] rfl with hroot | ⟨e, he, hid⟩
      · exact ⟨1, hlast.trans hroot⟩
      · obtain ⟨n, hn⟩ := hearlier e he
        refine ⟨n + 1, ?_⟩
        rw [Function.iterate_succ_apply, hlast, ← hid, hn]

end CreationOrder

/-! ### The last row with a property -/

/-- The row created last among those with a property. -/
def lastRow (p : α → Bool) (rows : List α) : Option α := rows.reverse.find? p

theorem lastRow_snoc (p : α → Bool) (rows : List α) (row : α) :
    lastRow p (rows ++ [row]) = if p row then some row else lastRow p rows := by
  cases hrow : p row <;> simp [lastRow, hrow]

/-- A row that is created later takes the place of those before. -/
theorem lastRow_append (p : α → Bool) (rows rows' : List α) :
    lastRow p (rows ++ rows') = (lastRow p rows').or (lastRow p rows) := by
  rw [lastRow, List.reverse_append, List.find?_append]
  rfl

theorem lastRow_mem {p : α → Bool} {rows : List α} {row : α} (h : lastRow p rows = some row) :
    row ∈ rows ∧ p row := by
  refine ⟨List.mem_reverse.mp (List.mem_of_find?_eq_some h), List.find?_some h⟩

theorem lastRow_eq_none {p : α → Bool} {rows : List α} :
    lastRow p rows = none ↔ ∀ row ∈ rows, p row = false := by
  simp [lastRow]

/-- A row that is the only one with the property is the last one. -/
theorem lastRow_of_unique {p : α → Bool} {rows : List α} {row : α} (hrow : row ∈ rows)
    (hp : p row) (hunique : ∀ r ∈ rows, p r → r = row) : lastRow p rows = some row := by
  cases hlast : lastRow p rows with
  | none => exact absurd (lastRow_eq_none.mp hlast row hrow) (by simp [hp])
  | some r =>
    obtain ⟨hr, hpr⟩ := lastRow_mem hlast
    rw [hunique r hr hpr]

end RocketFS
