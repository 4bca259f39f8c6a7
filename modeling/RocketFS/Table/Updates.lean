import RocketFS.Table.Writes

/-!
# Several row updates in one transaction

`KVDirTable::Write` for several rows, buffered in one transaction and committed. Each
column family is a layout of the rows, and the operations of its serde are an
incremental rewrite, so the theory of row updates applies to each of them: the table
that results is the intended one exactly when no update deletes a record that an
earlier one has put. The ids decide this for the three id-keyed column families, the
parents and names for the entries. In particular an exchange of two names never works,
in neither order.

## Main definitions

* `StoresTable` — the four column families hold the records of a list of rows
* `Constraints` — `PRIMARY KEY(id)` and `UNIQUE(parent_id, name)`

## Main results

* `storesTable_updates_iff` — when a list of updates gives the intended table
-/

namespace RocketFS

/-- The four column families hold the records of the rows and nothing else. -/
def StoresTable (fb : FlatBuffers) (db : Database) (rows : List Dir) : Prop :=
  ∀ c ∈ columns fb, c.2.layout.Stores (db.get c.1) rows

/-- `PRIMARY KEY(id)` and `UNIQUE(parent_id, name)`. -/
structure Constraints (rows : List Dir) : Prop where
  primaryKey : (rows.map Dir.id).Nodup
  unique : (rows.map Dir.place).Nodup

/-- The updates of a list of rows, as `KVDirTable::Write` takes them. -/
def asWrites (updates : List (Dir × Dir)) : List (Option Dir × Option Dir) :=
  updates.map fun u => (some u.1, some u.2)

section Columns

variable {fb : FlatBuffers} {c : CFIndex × Serde Dir}

/-- A key stands for the id of a row or for its place. -/
theorem serKey_cases (hc : c ∈ columns fb) :
    (∀ a b, c.2.serKey a = c.2.serKey b ↔ a.id = b.id) ∨
      ∀ a b, c.2.serKey a = c.2.serKey b ↔ a.place = b.place := by
  refine columns_cases ?_ ?_ ?_ ?_ hc
  · exact .inl fun a b => InodeSerde.serKey_inj
  · exact .inl fun a b => InodeSerde.serKey_inj
  · exact .inl fun a b => InodeSerde.serKey_inj
  · exact .inr fun a b => DEntSerde.serKey_inj.trans Prod.mk_inj.symm

/-- Rows that meet the constraints have distinct keys in every column family. -/
theorem Constraints.keys {rows : List Dir} (h : Constraints rows) (hc : c ∈ columns fb) :
    (rows.map c.2.layout.key).Nodup := by
  refine List.pairwise_map.mpr ?_
  rcases serKey_cases hc with hid | hplace
  · exact (List.pairwise_map.mp h.primaryKey).imp fun hne heq => hne ((hid _ _).mp heq)
  · exact (List.pairwise_map.mp h.unique).imp fun hne heq => hne ((hplace _ _).mp heq)

/-- Distinct keys in all column families are distinct ids and distinct places. -/
theorem forall_serKey_ne_iff {a b : Dir} :
    (∀ c ∈ columns fb, c.2.serKey a ≠ c.2.serKey b) ↔ a.id ≠ b.id ∧ a.place ≠ b.place := by
  constructor
  · intro h
    constructor
    · intro hid
      refine h (kInodeCFIndex, InodeSerde.dir fb) (by simp [columns]) ?_
      exact InodeSerde.serKey_inj.mpr hid
    · intro hplace
      refine h (kDEntCFIndex, DEntSerde.dir fb) (by simp [columns]) ?_
      exact DEntSerde.serKey_inj.mpr (Prod.mk.inj hplace)
  · rintro ⟨hid, hplace⟩ c hc
    rcases serKey_cases hc with hkey | hkey
    · exact mt (hkey a b).mp hid
    · exact mt (hkey a b).mp hplace

/-- A row with an id and a place of its own is inserted. -/
theorem StoresTable.insert {db : Database} {rows : List Dir} {dir : Dir}
    (h : StoresTable fb db rows)
    (hnew : ∀ row ∈ rows, row.id ≠ dir.id ∧ row.place ≠ dir.place) :
    StoresTable fb (rewriteDir fb db none (some dir)) (rows ++ [dir]) := by
  intro c hc
  rw [get_rewriteDir hc]
  exact (h c hc).add fun row hrow => forall_serKey_ne_iff.mpr (hnew row hrow) c hc

end Columns

/-- What a list of updates is applied to: the table is stored and meets its constraints, the
updates are of distinct rows, and the table with all of them replaced at once meets the
constraints again. -/
structure ReplacesRows (fb : FlatBuffers) (db : Database) (rows : List Dir)
    (updates : List (Dir × Dir)) : Prop where
  stored : StoresTable fb db rows
  constraints : Constraints rows
  mem : ∀ u ∈ updates, u.1 ∈ rows
  distinct : (updates.map Prod.fst).Nodup
  newConstraints : Constraints (replaceRows rows updates)

section Updates

variable {fb : FlatBuffers} {db db' : Database} {rows : List Dir} {updates : List (Dir × Dir)}

theorem ReplacesRows.replaces (h : ReplacesRows fb db rows updates)
    {c : CFIndex × Serde Dir} (hc : c ∈ columns fb) :
    c.2.layout.Replaces (db.get c.1) rows updates where
  stored := h.stored c hc
  keys := h.constraints.keys hc
  mem := h.mem
  distinct := h.distinct
  newKeys := h.newConstraints.keys hc

/-- Each column family comes out right exactly when no update deletes a record of it that an
earlier one has put. -/
theorem ReplacesRows.stores_iff (h : ReplacesRows fb db rows updates)
    (hview : db'.view =
      applyOps db.view ((asWrites updates).flatMap fun u => dirOps fb u.1 u.2))
    {c : CFIndex × Serde Dir} (hc : c ∈ columns fb) :
    c.2.layout.Stores (db'.get c.1) (replaceRows rows updates) ↔
      updates.Pairwise fun u v => c.2.serKey u.2 ≠ c.2.serKey v.1 := by
  rw [get_commitRows hview hc, asWrites, List.flatMap_map]
  exact Layout.stores_applyOps_iff (h.replaces hc) fun u _ => (columns_lawful hc).rewrite _ _

theorem ReplacesRows.storesTable_iff (h : ReplacesRows fb db rows updates)
    (hview : db'.view =
      applyOps db.view ((asWrites updates).flatMap fun u => dirOps fb u.1 u.2)) :
    StoresTable fb db' (replaceRows rows updates) ↔
      updates.Pairwise fun u v => u.2.id ≠ v.1.id ∧ u.2.place ≠ v.1.place := by
  calc StoresTable fb db' (replaceRows rows updates)
      ↔ ∀ c ∈ columns fb, updates.Pairwise fun u v => c.2.serKey u.2 ≠ c.2.serKey v.1 :=
        forall₂_congr fun c hc => h.stores_iff hview hc
    _ ↔ updates.Pairwise fun u v => ∀ c ∈ columns fb, c.2.serKey u.2 ≠ c.2.serKey v.1 := by
        simp only [List.pairwise_iff_forall_sublist]
        exact ⟨fun h u v hsub c hc => h c hc hsub, fun h c hc u v hsub => h hsub c hc⟩
    _ ↔ updates.Pairwise fun u v => u.2.id ≠ v.1.id ∧ u.2.place ≠ v.1.place := by
        simp only [forall_serKey_ne_iff]

end Updates

/-- Row updates in one transaction depend on their order: writing them in the order of the
list and committing gives the intended table exactly when no update has as its old id or
place the new id or place of an earlier one. -/
theorem storesTable_updates_iff (fb : FlatBuffers) (env : Env) (store : KVStore)
    (hstore : store.Opened) (rows : List Dir) (updates : List (Dir × Dir))
    (h : ReplacesRows fb store.db rows updates) :
    ∃ store', runRequest env (commitRows fb (asWrites updates)) store =
        (.ok (.ok ()), store') ∧
      (StoresTable fb store'.db (replaceRows rows updates) ↔
        updates.Pairwise fun u v => u.2.id ≠ v.1.id ∧ u.2.place ≠ v.1.place) := by
  obtain ⟨store', hrun, _, hview⟩ := runRequest_commitRows fb env hstore (asWrites updates)
  exact ⟨store', hrun, h.storesTable_iff hview⟩

/-! ### Two renames -/

/-- A store that holds two directories. -/
def twoDirStore : KVStore :=
  KVStore.openDb (rewriteDir .sample (rewriteDir .sample .empty none (some (plainDir 2 "a" 0)))
    none (some (plainDir 3 "b" 0)))

/-- Rename `b` to `c`, then `a` to `b`. -/
def renamesFromTheEnd : List (Dir × Dir) :=
  [(plainDir 3 "b" 0, plainDir 3 "c" 0), (plainDir 2 "a" 0, plainDir 2 "b" 0)]

/-- Rename `a` to `b`, then `b` to `c`. -/
def renamesFromTheStart : List (Dir × Dir) := renamesFromTheEnd.reverse

theorem storesTable_twoDirStore :
    StoresTable .sample twoDirStore.db [plainDir 2 "a" 0, plainDir 3 "b" 0] := by
  have hempty : StoresTable .sample Database.empty [] := fun c _ => c.2.layout.stores_nil
  have hfirst : StoresTable .sample _ ([] ++ [plainDir 2 "a" 0]) :=
    hempty.insert fun row hrow => nomatch hrow
  refine StoresTable.insert hfirst fun row hrow => ?_
  rw [List.mem_singleton.mp hrow]
  decide

theorem replacesRows_fromTheEnd :
    ReplacesRows .sample twoDirStore.db [plainDir 2 "a" 0, plainDir 3 "b" 0]
      renamesFromTheEnd where
  stored := storesTable_twoDirStore
  constraints := ⟨by decide, by decide⟩
  mem := by decide
  distinct := by decide
  newConstraints := ⟨by decide, by decide⟩

theorem replacesRows_fromTheStart :
    ReplacesRows .sample twoDirStore.db [plainDir 2 "a" 0, plainDir 3 "b" 0]
      renamesFromTheStart where
  stored := storesTable_twoDirStore
  constraints := ⟨by decide, by decide⟩
  mem := by decide
  distinct := by decide
  newConstraints := ⟨by decide, by decide⟩

theorem storesTable_fromTheEnd :
    ∃ store', runRequest Env.quiet (commitRows .sample (asWrites renamesFromTheEnd)) twoDirStore =
        (.ok (.ok ()), store') ∧
      StoresTable .sample store'.db
        (replaceRows [plainDir 2 "a" 0, plainDir 3 "b" 0] renamesFromTheEnd) := by
  obtain ⟨store', hrun, hiff⟩ := storesTable_updates_iff .sample Env.quiet twoDirStore
    (KVStore.opened_openDb _) _ _ replacesRows_fromTheEnd
  exact ⟨store', hrun, hiff.mpr (by decide)⟩

/-- Renaming `a` to `b` and then `b` to `c` loses the new entry `b`: the table is not the
intended one. -/
theorem storesTable_not_fromTheStart :
    ReplacesRows .sample twoDirStore.db [plainDir 2 "a" 0, plainDir 3 "b" 0]
        renamesFromTheStart ∧
      ∃ store', runRequest Env.quiet (commitRows .sample (asWrites renamesFromTheStart))
          twoDirStore = (.ok (.ok ()), store') ∧
        ¬ StoresTable .sample store'.db
          (replaceRows [plainDir 2 "a" 0, plainDir 3 "b" 0] renamesFromTheStart) := by
  obtain ⟨store', hrun, _, hview⟩ := runRequest_commitRows .sample Env.quiet
    (KVStore.opened_openDb _) (asWrites renamesFromTheStart)
  refine ⟨replacesRows_fromTheStart, store', hrun, ?_⟩
  rw [replacesRows_fromTheStart.storesTable_iff hview]
  decide

end RocketFS
