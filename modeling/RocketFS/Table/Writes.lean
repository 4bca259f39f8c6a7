import RocketFS.KV.Conflicts
import RocketFS.Lib.RowUpdates
import RocketFS.Table.Tables

/-!
# What `KVDirTable::Write` leaves in the database

`KVDirTable::Write` buffers a few operations in each of four column families, chosen
by comparing the fields of the old and the new row. The change predicates of every
serde are right: an unchanged key or value is one whose bytes are equal. So one write
and its commit leave what deleting the old records and inserting the new ones would
leave. A row that is written and read back keeps everything but its access control
list, which no serde stores.

## Main definitions

* `Serde.Lawful` — the change predicates of a serde are right
* `columns` — the column families of a directory row, with their serdes
* `dirOps` — the operations one write buffers
* `rewriteDir` — deleting the records of one row and inserting those of another
* `commitRows` — the program that writes rows and commits

## Main results

* `runRequest_commitRows` — what writing rows and committing does to the database
* `write_eq_rewriteDir` — incremental writes equal full rewrites
* `read_written_iff` — which rows are read back as they were written
-/

namespace RocketFS

/-! ### The change predicates -/

/-- The operations in the order in which `Serde::Write` makes them. -/
def WriteOps.toOps (writeOps : WriteOps) : List (Bytes × Option Bytes) :=
  (writeOps.delKey.toList.map fun key => (key, none)) ++
    writeOps.putKv.toList.map fun kv => (kv.1, some kv.2)

namespace Serde

variable {T : Type}

/-- Where a serde keeps a row, and what it keeps of it. -/
def layout (self : Serde T) : Layout T Bytes Bytes := ⟨self.serKey, self.serVal⟩

/-- The change predicates are right: `IsKeyChanged` compares the keys, and where neither
predicate holds the values are equal. -/
structure Lawful (serde : Serde T) : Prop where
  key : ∀ orig mod, serde.isKeyChanged orig mod = true ↔ serde.serKey orig ≠ serde.serKey mod
  val : ∀ orig mod, serde.isKeyChanged orig mod = false →
    serde.isValueChanged orig mod = false → serde.serVal orig = serde.serVal mod

theorem Lawful.serKey_eq {self : Serde T} (h : self.Lawful) {orig mod : T}
    (hkey : self.isKeyChanged orig mod = false) : self.serKey orig = self.serKey mod := by
  by_contra hne
  rw [(h.key orig mod).mpr hne] at hkey
  cases hkey

/-- With right change predicates the operations turn the record of one row into that of the
other. -/
theorem Lawful.rewrite {self : Serde T} (h : self.Lawful) (orig mod : Option T) :
    self.layout.Rewrite orig mod (self.getWriteOps orig mod).toOps := by
  match orig, mod with
  | none, none => exact .nothing
  | none, some mod => exact .insert mod
  | some orig, none => exact .delete orig
  | some orig, some mod =>
    cases hkey : self.isKeyChanged orig mod with
    | true =>
      simp only [getWriteOps, hkey, if_true, Bool.true_or]
      exact .move orig mod ((h.key orig mod).mp hkey)
    | false =>
      cases hvalue : self.isValueChanged orig mod with
      | true =>
        simp only [getWriteOps, hkey, hvalue]
        exact .replace orig mod (h.serKey_eq hkey)
      | false =>
        simp only [getWriteOps, hkey, hvalue]
        exact .keep orig mod (h.serKey_eq hkey) (h.val orig mod hkey hvalue)

end Serde

theorem InodeSerde.dir_lawful (fb : FlatBuffers) : (InodeSerde.dir fb).Lawful where
  key orig mod := by simp [InodeSerde.dir, InodeSerde.serKey_inj]
  val orig mod _ hvalue := by
    simp only [InodeSerde.dir, Bool.or_eq_false_iff, decide_eq_false_iff_not, not_not] at hvalue
    -- the comparison of the access control lists is about nothing that is written
    obtain ⟨⟨⟨⟨hparent, hname⟩, hid⟩, _⟩, hctime⟩ := hvalue
    simp only [InodeSerde.dir, InodeSerde.serValDir, hparent, hname, hid, hctime]

theorem InodeSerde.file_lawful (fb : FlatBuffers) : (InodeSerde.file fb).Lawful where
  key orig mod := by simp [InodeSerde.file, InodeSerde.serKey_inj]
  val orig mod _ hvalue := by
    simp only [InodeSerde.file, Bool.or_eq_false_iff, decide_eq_false_iff_not, not_not] at hvalue
    obtain ⟨⟨hid, _⟩, hctime⟩ := hvalue
    simp only [InodeSerde.file, InodeSerde.serValFile, hid, hctime]

theorem TimeSerde.row_lawful {T : Type} (id : T → InodeID) (timeInNs : T → Int64) :
    (TimeSerde.row id timeInNs).Lawful where
  key orig mod := by simp [TimeSerde.row, InodeSerde.serKey_inj]
  val orig mod _ hvalue := by
    simp only [TimeSerde.row, decide_eq_false_iff_not, not_not] at hvalue
    simp only [TimeSerde.row, hvalue]

theorem DEntSerde.dir_lawful (fb : FlatBuffers) : (DEntSerde.dir fb).Lawful where
  key orig mod := by
    simp only [DEntSerde.dir, Bool.or_eq_true, decide_eq_true_eq, ne_eq, DEntSerde.serKey_inj]
    exact not_and_or.symm
  val orig mod hkey hvalue := by
    -- parent and name are part of the value too, but only `IsKeyChanged` compares them
    simp only [DEntSerde.dir, Bool.or_eq_false_iff, decide_eq_false_iff_not, not_not]
      at hkey hvalue
    simp only [DEntSerde.dir, DEntSerde.serValDir, hkey.1, hkey.2, hvalue]

theorem DEntSerde.hardLink_lawful (fb : FlatBuffers) : (DEntSerde.hardLink fb).Lawful where
  key orig mod := by
    simp only [DEntSerde.hardLink, Bool.or_eq_true, decide_eq_true_eq, ne_eq,
      DEntSerde.serKey_inj]
    exact not_and_or.symm
  val orig mod hkey hvalue := by
    simp only [DEntSerde.hardLink, Bool.or_eq_false_iff, decide_eq_false_iff_not, not_not]
      at hkey hvalue
    simp only [DEntSerde.hardLink, DEntSerde.serValHardLink, hkey.1, hkey.2, hvalue]

/-! ### The four column families of a directory -/

/-- The column families `KVDirTable::Write` writes, with their serdes. -/
def columns (fb : FlatBuffers) : List (CFIndex × Serde Dir) :=
  [(kInodeCFIndex, InodeSerde.dir fb), (kMTimeCFIndex, MTimeSerde.dir),
    (kATimeCFIndex, ATimeSerde.dir), (kDEntCFIndex, DEntSerde.dir fb)]

/-- The records of a row. -/
def dirRecords (fb : FlatBuffers) (dir : Dir) : List (CFKey × Bytes) :=
  (columns fb).map fun c => (cfKey c.1 (c.2.serKey dir), c.2.serVal dir)

/-- The operations `KVDirTable::Write` buffers. -/
def dirOps (fb : FlatBuffers) (orig mod : Option Dir) : CFOps :=
  (columns fb).flatMap fun c => inColumn c.1 (c.2.getWriteOps orig mod).toOps

section Columns

variable {fb : FlatBuffers} {c : CFIndex × Serde Dir}

/-- One case for each of the four column families. -/
@[elab_as_elim]
theorem columns_cases {motive : CFIndex × Serde Dir → Prop}
    (hinode : motive (kInodeCFIndex, InodeSerde.dir fb))
    (hmtime : motive (kMTimeCFIndex, MTimeSerde.dir))
    (hatime : motive (kATimeCFIndex, ATimeSerde.dir))
    (hdent : motive (kDEntCFIndex, DEntSerde.dir fb)) (hc : c ∈ columns fb) : motive c := by
  simp only [columns, List.mem_cons, List.not_mem_nil, or_false] at hc
  rcases hc with rfl | rfl | rfl | rfl
  · exact hinode
  · exact hmtime
  · exact hatime
  · exact hdent

theorem columns_lawful (hc : c ∈ columns fb) : c.2.Lawful := by
  refine columns_cases ?_ ?_ ?_ ?_ hc
  · exact InodeSerde.dir_lawful fb
  · exact TimeSerde.row_lawful _ _
  · exact TimeSerde.row_lawful _ _
  · exact DEntSerde.dir_lawful fb

/-- The operations on one column family are those of its serde. -/
theorem opsOn_columns (hc : c ∈ columns fb) (f : Serde Dir → List (Bytes × Option Bytes)) :
    opsOn c.1 ((columns fb).flatMap fun c => inColumn c.1 (f c.2)) = f c.2 := by
  simp only [columns, List.flatMap_cons, List.flatMap_nil, opsOn_append, opsOn_inColumn,
    List.append_nil]
  -- the four indices are distinct
  refine columns_cases ?_ ?_ ?_ ?_ hc <;>
    simp [kInodeCFIndex, kMTimeCFIndex, kATimeCFIndex, kDEntCFIndex]

theorem opsOn_other {cf : CFIndex} (hcf : ∀ c ∈ columns fb, c.1 ≠ cf)
    (f : Serde Dir → List (Bytes × Option Bytes)) :
    opsOn cf ((columns fb).flatMap fun c => inColumn c.1 (f c.2)) = [] := by
  rw [opsOn_flatMap, List.flatMap_eq_nil_iff]
  intro c hc
  rw [opsOn_inColumn, if_neg (hcf c hc)]

end Columns

/-! ### Writing and committing -/

section Exec

variable {Store : Type} {commitTxn : Store → Txn → Except Crash (Except Status Unit) × Store}
  {env : Env} {s : RequestState Store} {cf : CFIndex}

/-- Buffer operations in a transaction. -/
def RequestState.buffer (s : RequestState Store) (ops : CFOps) : RequestState Store :=
  { s with txn := { s.txn with writeSet := WriteSet.addOps s.txn.writeSet ops } }

theorem RequestState.buffer_append (s : RequestState Store) (ops ops' : CFOps) :
    s.buffer (ops ++ ops') = (s.buffer ops).buffer ops' := by
  simp only [buffer, WriteSet.addOps, List.foldl_append]

theorem exec_put (hcf : cf.Opened) (key value : Bytes) :
    (HandlerM.put cf key value).exec (handleWith commitTxn env) s =
      (.ok (), s.buffer [(cfKey cf key, some value)]) := by
  refine Program.exec_call_ok ?_
  simp only [handleWith, Txn.put, Txn.checkHandle_of_opened hcf, ok_bind]
  rfl

theorem exec_del (hcf : cf.Opened) (key : Bytes) :
    (HandlerM.del cf key).exec (handleWith commitTxn env) s =
      (.ok (), s.buffer [(cfKey cf key, none)]) := by
  refine Program.exec_call_ok ?_
  simp only [handleWith, Txn.del, Txn.checkHandle_of_opened hcf, ok_bind]
  rfl

/-- `Serde::Write` buffers its operations. -/
theorem Serde.exec_write {T : Type} (self : Serde T) (hcf : cf.Opened) (orig mod : Option T) :
    (self.write cf orig mod).exec (handleWith commitTxn env) s =
      (.ok (), s.buffer (inColumn cf (self.getWriteOps orig mod).toOps)) := by
  rw [Serde.write]
  rcases self.getWriteOps orig mod with ⟨_ | delKey, _ | ⟨key, value⟩⟩
  · rfl
  · exact exec_put hcf key value
  · exact (Program.exec_bind_ok (exec_del hcf delKey) _).trans rfl
  · exact (Program.exec_bind_ok (exec_del hcf delKey) _).trans (exec_put hcf key value)

/-- `KVDirTable::Write` buffers the operations of the four serdes. -/
theorem KVDirTable.exec_write (fb : FlatBuffers) (orig mod : Option Dir) :
    (KVDirTable.write fb orig mod).exec (handleWith commitTxn env) s =
      (.ok (), s.buffer (dirOps fb orig mod)) := by
  rw [KVDirTable.write,
    Program.exec_bind_ok (Serde.exec_write (InodeSerde.dir fb) (by decide) orig mod),
    Program.exec_bind_ok (Serde.exec_write MTimeSerde.dir (by decide) orig mod),
    Program.exec_bind_ok (Serde.exec_write ATimeSerde.dir (by decide) orig mod),
    Serde.exec_write (DEntSerde.dir fb) (by decide) orig mod]
  simp only [dirOps, columns, List.flatMap_cons, List.flatMap_nil, List.append_nil,
    RequestState.buffer_append]

end Exec

/-- `KVDirTable::Write` for each of a list of updates, in this order. -/
def writeRows (fb : FlatBuffers) : List (Option Dir × Option Dir) → HandlerM Unit
  | [] => return ()
  | (orig, mod) :: rest => do
    KVDirTable.write fb orig mod
    writeRows fb rest

/-- Write rows in one transaction, and commit it. -/
def commitRows (fb : FlatBuffers) (updates : List (Option Dir × Option Dir)) :
    HandlerM (Except Status Unit) := do
  writeRows fb updates
  HandlerM.commitTxn

theorem exec_writeRows (fb : FlatBuffers) (env : Env) (updates : List (Option Dir × Option Dir))
    (s : HandlerState) :
    (writeRows fb updates).exec (handle env) s =
      (.ok (), s.buffer (updates.flatMap fun u => dirOps fb u.1 u.2)) := by
  induction updates generalizing s with
  | nil => rfl
  | cons u rest ih =>
    rw [writeRows, Program.exec_bind_ok (KVDirTable.exec_write fb u.1 u.2), ih,
      List.flatMap_cons, RequestState.buffer_append]

section Commit

variable {fb : FlatBuffers} {store : KVStore}

/-- Writing rows and committing succeeds and applies the operations in the order in which
they were made. -/
theorem runRequest_commitRows (fb : FlatBuffers) (env : Env) (hstore : store.Opened)
    (updates : List (Option Dir × Option Dir)) :
    ∃ store', runRequest env (commitRows fb updates) store = (.ok (.ok ()), store') ∧
      store'.Opened ∧
      store'.db.view = applyOps store.db.view (updates.flatMap fun u => dirOps fb u.1 u.2) := by
  -- the transaction after the writes
  let s : HandlerState := (HandlerState.start store).buffer
    (updates.flatMap fun u => dirOps fb u.1 u.2)
  have hcommit : s.store.commitTxn s.txn = (.ok (.ok ()),
      { s.store.bumpVersion with db := s.store.db.write s.txn.writeSet }) :=
    hstore.bumpVersion.commitTxn hstore.version_pos (Int.lt_succ _)
  have hexec : (commitRows fb updates).exec (handle env) (HandlerState.start store) =
      (.ok (.ok ()),
        ⟨{ s.store.bumpVersion with db := s.store.db.write s.txn.writeSet }, s.txn⟩) := by
    rw [commitRows, Program.exec_bind_ok (exec_writeRows fb env updates _)]
    refine Program.exec_call_ok ?_
    simp only [handleWith]
    rw [hcommit]
  refine ⟨{ s.store.bumpVersion with db := s.store.db.write s.txn.writeSet }, ?_, ?_, ?_⟩
  · rw [runRequest, hexec]
  · exact ⟨hstore.bumpVersion.bumpVersion.detector, hstore.bumpVersion.bumpVersion.version_pos⟩
  · exact store.db.view_write_addOps .empty _

/-- Each column family after the commit. -/
theorem get_commitRows {db db' : Database} {updates : List (Option Dir × Option Dir)}
    (h : db'.view = applyOps db.view (updates.flatMap fun u => dirOps fb u.1 u.2))
    {c : CFIndex × Serde Dir} (hc : c ∈ columns fb) :
    db'.get c.1 =
      applyOps (db.get c.1) (updates.flatMap fun u => (c.2.getWriteOps u.1 u.2).toOps) := by
  have hcolumn := Database.applyOps_column db.view
    (updates.flatMap fun u => dirOps fb u.1 u.2) c.1
  rw [← h, opsOn_flatMap] at hcolumn
  refine hcolumn.trans (congrArg _ ?_)
  exact List.flatMap_congr fun u _ =>
    opsOn_columns hc fun serde => (serde.getWriteOps u.1 u.2).toOps

theorem get_commitRows_other {db db' : Database} {updates : List (Option Dir × Option Dir)}
    (h : db'.view = applyOps db.view (updates.flatMap fun u => dirOps fb u.1 u.2))
    {cf : CFIndex} (hcf : ∀ c ∈ columns fb, c.1 ≠ cf) : db'.get cf = db.get cf := by
  have hcolumn := Database.applyOps_column db.view
    (updates.flatMap fun u => dirOps fb u.1 u.2) cf
  have hnil : updates.flatMap (fun u => opsOn cf (dirOps fb u.1 u.2)) = [] :=
    List.flatMap_eq_nil_iff.mpr fun u _ =>
      opsOn_other hcf fun serde => (serde.getWriteOps u.1 u.2).toOps
  rw [← h, opsOn_flatMap, hnil] at hcolumn
  exact hcolumn

end Commit

/-! ### One write -/

/-- The records of a row, if there is one. -/
def recordsOf (fb : FlatBuffers) : Option Dir → List (CFKey × Bytes)
  | none => []
  | some dir => dirRecords fb dir

/-- Delete all records of one row, then insert all records of another. -/
def rewriteDir (fb : FlatBuffers) (db : Database) (orig mod : Option Dir) : Database :=
  let deleted := (recordsOf fb orig).foldl (fun db record => db.applyOp (record.1, none)) db
  (recordsOf fb mod).foldl (fun db record => db.applyOp (record.1, some record.2)) deleted

section Rewrite

variable {fb : FlatBuffers} {db : Database} {orig mod : Option Dir}

/-- The operations of a full rewrite. -/
def rewriteOps (fb : FlatBuffers) (orig mod : Option Dir) : CFOps :=
  ((recordsOf fb orig).map fun record => (record.1, none)) ++
    (recordsOf fb mod).map fun record => (record.1, some record.2)

theorem view_rewriteDir :
    (rewriteDir fb db orig mod).view = applyOps db.view (rewriteOps fb orig mod) := by
  rw [← Database.view_applyAll, rewriteOps, List.foldl_append, List.foldl_map, List.foldl_map]
  rfl

/-- The removal of a record from a column family. -/
def Serde.delOps (self : Serde Dir) (row : Option Dir) : List (Bytes × Option Bytes) :=
  row.toList.map fun row => (self.serKey row, none)

/-- The addition of a record to a column family. -/
def Serde.putOps (self : Serde Dir) (row : Option Dir) : List (Bytes × Option Bytes) :=
  row.toList.map fun row => (self.serKey row, some (self.serVal row))

/-- A full rewrite removes and adds a record in each column family. -/
theorem rewriteOps_eq (fb : FlatBuffers) (orig mod : Option Dir) :
    rewriteOps fb orig mod =
      ((columns fb).flatMap fun c => inColumn c.1 (c.2.delOps orig)) ++
        (columns fb).flatMap fun c => inColumn c.1 (c.2.putOps mod) := by
  cases orig <;> cases mod <;> rfl

theorem get_rewriteDir {c : CFIndex × Serde Dir} (hc : c ∈ columns fb) :
    (rewriteDir fb db orig mod).get c.1 =
      c.2.layout.add (c.2.layout.remove (db.get c.1) orig) mod := by
  have hcolumn := Database.applyOps_column db.view (rewriteOps fb orig mod) c.1
  rw [← view_rewriteDir, rewriteOps_eq, opsOn_append,
    opsOn_columns hc fun serde => serde.delOps orig,
    opsOn_columns hc fun serde => serde.putOps mod] at hcolumn
  refine hcolumn.trans ?_
  cases orig <;> cases mod <;> rfl

theorem get_rewriteDir_other {cf : CFIndex} (hcf : ∀ c ∈ columns fb, c.1 ≠ cf) :
    (rewriteDir fb db orig mod).get cf = db.get cf := by
  have hcolumn := Database.applyOps_column db.view (rewriteOps fb orig mod) cf
  rw [← view_rewriteDir, rewriteOps_eq, opsOn_append,
    opsOn_other hcf fun serde => serde.delOps orig,
    opsOn_other hcf fun serde => serde.putOps mod] at hcolumn
  exact hcolumn

/-- One incremental write of a database that holds the old records is a full rewrite. -/
theorem eq_rewriteDir {db' : Database}
    (horig : ∀ record ∈ recordsOf fb orig, db.view record.1 = some record.2)
    (hwrite : db'.view = applyOps db.view (dirOps fb orig mod)) :
    db' = rewriteDir fb db orig mod := by
  have hview : db'.view = applyOps db.view ([(orig, mod)].flatMap fun u => dirOps fb u.1 u.2) := by
    simpa using hwrite
  have hget : ∀ cf, db'.get cf = (rewriteDir fb db orig mod).get cf := by
    intro cf
    by_cases hcf : ∃ c ∈ columns fb, c.1 = cf
    · -- the operations of one serde against the full rewrite of its record
      obtain ⟨c, hc, rfl⟩ := hcf
      rw [get_commitRows hview hc, get_rewriteDir hc]
      have hstored : ∀ row ∈ orig, db.get c.1 (c.2.layout.key row) = some (c.2.layout.val row) := by
        rintro row rfl
        exact horig _ (List.mem_map_of_mem hc)
      simpa using ((columns_lawful hc).rewrite orig mod).applyOps_eq hstored
    · have hother : ∀ c ∈ columns fb, c.1 ≠ cf := fun c hc heq => hcf ⟨c, hc, heq⟩
      rw [get_commitRows_other hview hother, get_rewriteDir_other hother]
  exact Database.ext_view fun k => congrFun (hget (ofLex k).1) (ofLex k).2

theorem view_rewriteDir_other {k : CFKey}
    (hk : k ∉ (recordsOf fb orig ++ recordsOf fb mod).map Prod.fst) :
    (rewriteDir fb db orig mod).view k = db.view k := by
  rw [view_rewriteDir]
  refine applyOps_of_untouched fun op hop hkey => hk ?_
  rw [← hkey, List.map_append, List.mem_append]
  rcases List.mem_append.mp hop with hop | hop
  · obtain ⟨record, hrecord, rfl⟩ := List.mem_map.mp hop
    exact .inl (List.mem_map_of_mem hrecord)
  · obtain ⟨record, hrecord, rfl⟩ := List.mem_map.mp hop
    exact .inr (List.mem_map_of_mem hrecord)

/-- The new records are there. -/
theorem view_rewriteDir_new {record : CFKey × Bytes} (hrecord : record ∈ recordsOf fb mod) :
    (rewriteDir fb db orig mod).view record.1 = some record.2 := by
  cases mod with
  | none => cases hrecord
  | some dir =>
    obtain ⟨c, hc, rfl⟩ := List.mem_map.mp hrecord
    refine (congrFun (get_rewriteDir hc) _).trans ?_
    exact Function.update_self _ _ _

end Rewrite

/-- A row that neither predicate calls changed has the same bytes. -/
def Serde.UnchangedEq {T : Type} (self : Serde T) : Prop :=
  ∀ orig mod, self.isKeyChanged orig mod = false → self.isValueChanged orig mod = false →
    self.serKey orig = self.serKey mod ∧ self.serVal orig = self.serVal mod

theorem Serde.Lawful.unchangedEq {T : Type} {self : Serde T} (h : self.Lawful) :
    self.UnchangedEq :=
  fun orig mod hkey hvalue => ⟨h.serKey_eq hkey, h.val orig mod hkey hvalue⟩

/-- Incremental writes equal full rewrites: on a database that holds the records of `orig`,
`KVDirTable::Write` and a commit leave what deleting all records of `orig` and inserting all
records of `mod` leaves, and no other key changes. The change predicates of all eight
overloads see every field their serializers write. -/
theorem write_eq_rewriteDir (fb : FlatBuffers) (env : Env) (store : KVStore)
    (hstore : store.Opened) (orig mod : Option Dir)
    (horig : ∀ record ∈ recordsOf fb orig, store.db.view record.1 = some record.2) :
    (∃ store', runRequest env (commitRows fb [(orig, mod)]) store = (.ok (.ok ()), store') ∧
      store'.db = rewriteDir fb store.db orig mod ∧
      ∀ k, k ∉ (recordsOf fb orig ++ recordsOf fb mod).map Prod.fst →
        store'.db.view k = store.db.view k) ∧
    ((InodeSerde.dir fb).UnchangedEq ∧ (InodeSerde.file fb).UnchangedEq ∧
      MTimeSerde.dir.UnchangedEq ∧ MTimeSerde.file.UnchangedEq ∧
      ATimeSerde.dir.UnchangedEq ∧ ATimeSerde.file.UnchangedEq ∧
      (DEntSerde.dir fb).UnchangedEq ∧ (DEntSerde.hardLink fb).UnchangedEq) := by
  refine ⟨?_, (InodeSerde.dir_lawful fb).unchangedEq, (InodeSerde.file_lawful fb).unchangedEq,
    (TimeSerde.row_lawful _ _).unchangedEq, (TimeSerde.row_lawful _ _).unchangedEq,
    (TimeSerde.row_lawful _ _).unchangedEq, (TimeSerde.row_lawful _ _).unchangedEq,
    (DEntSerde.dir_lawful fb).unchangedEq, (DEntSerde.hardLink_lawful fb).unchangedEq⟩
  obtain ⟨store', hrun, _, hview⟩ := runRequest_commitRows fb env hstore [(orig, mod)]
  have hdb : store'.db = rewriteDir fb store.db orig mod :=
    eq_rewriteDir horig (by simpa using hview)
  refine ⟨store', hrun, hdb, fun k hk => ?_⟩
  rw [hdb, view_rewriteDir_other hk]

/-- A directory of the root with all times zero. -/
def plainDir (id : UInt64) (name : String) (perm : UInt64) : Dir where
  parentId := kRootInodeID
  name := ascii name
  id := ⟨id⟩
  acl := ⟨0, 0, perm⟩
  ctimeInNs := 0
  mtimeInNs := 0
  atimeInNs := 0

/-- What the process gives to a request that draws nothing and whose reads do not fail. -/
def Env.quiet : Env := ⟨.ok kInvalidInodeID, 0, fun _ => none⟩

/-- A store that holds one directory. -/
def oneDirStore : KVStore :=
  KVStore.openDb (rewriteDir .sample .empty none (some (plainDir 2 "a" 0)))

/-- Renaming the directory. -/
theorem write_eq_rewriteDir_renamed :
    ∃ store', runRequest Env.quiet
        (commitRows .sample [(some (plainDir 2 "a" 0), some (plainDir 2 "b" 0))]) oneDirStore =
          (.ok (.ok ()), store') ∧
      store'.db = rewriteDir .sample oneDirStore.db (some (plainDir 2 "a" 0))
        (some (plainDir 2 "b" 0)) := by
  obtain ⟨⟨store', hrun, hdb, _⟩, _⟩ := write_eq_rewriteDir .sample Env.quiet oneDirStore
    (KVStore.opened_openDb _) (some (plainDir 2 "a" 0)) (some (plainDir 2 "b" 0))
    fun record hrecord => view_rewriteDir_new hrecord
  exact ⟨store', hrun, hdb⟩

/-! ### Reading a row back -/

/-- A row that is written, committed and read in a later transaction comes back with a zero
access control list. -/
theorem exists_read_written (fb : FlatBuffers) (env env' : Env)
    (henv' : ∀ op, env'.fault op = none) {store : KVStore} (hstore : store.Opened) (dir : Dir)
    (hname : dir.name ≠ []) :
    ∃ store', runRequest env (commitRows fb [(none, some dir)]) store = (.ok (.ok ()), store') ∧
      (runRequest env' (KVDirTable.read fb dir.id).lift store').1 =
        .ok (.ok (some { dir with acl := Acl.zero })) := by
  obtain ⟨store', hrun, _, hview⟩ := runRequest_commitRows fb env hstore [(none, some dir)]
  have hget : ∀ c ∈ columns fb, store'.db.get c.1 (c.2.serKey dir) = some (c.2.serVal dir) := by
    intro c hc
    rw [get_commitRows hview hc]
    simp [Serde.getWriteOps, WriteOps.toOps]
  refine ⟨store', hrun, ?_⟩
  rw [runRequest_lift henv']
  -- the read asks for three of the four records
  refine KVDirTable.ask_read_some hname ?_ ?_ ?_
  · exact hget (kInodeCFIndex, InodeSerde.dir fb) (by simp [columns])
  · exact hget (kMTimeCFIndex, MTimeSerde.dir) (by simp [columns])
  · exact hget (kATimeCFIndex, ATimeSerde.dir) (by simp [columns])

/-- A row comes back as it was written exactly when its access control list is zero; every
other field always does. -/
theorem read_written_iff (fb : FlatBuffers) (env env' : Env)
    (henv' : ∀ op, env'.fault op = none) (store : KVStore) (hstore : store.Opened) (dir : Dir)
    (hname : dir.name ≠ []) :
    ∃ store', runRequest env (commitRows fb [(none, some dir)]) store = (.ok (.ok ()), store') ∧
      (runRequest env' (KVDirTable.read fb dir.id).lift store').1 =
        .ok (.ok (some { dir with acl := Acl.zero })) ∧
      ((runRequest env' (KVDirTable.read fb dir.id).lift store').1 = .ok (.ok (some dir)) ↔
        dir.acl = Acl.zero) := by
  obtain ⟨store', hrun, hread⟩ := exists_read_written fb env env' henv' hstore dir hname
  refine ⟨store', hrun, hread, ?_⟩
  rw [hread, Except.ok.injEq, Except.ok.injEq, Option.some.injEq]
  constructor
  · intro heq
    exact (congrArg Dir.acl heq).symm
  · intro hacl
    rw [← hacl]

/-- A directory without permissions comes back as it was. -/
theorem read_written_plain :
    ∃ store', runRequest Env.quiet (commitRows .sample [(none, some (plainDir 2 "a" 0))])
        (KVStore.openDb .empty) = (.ok (.ok ()), store') ∧
      (runRequest Env.quiet (KVDirTable.read .sample ⟨2⟩).lift store').1 =
        .ok (.ok (some (plainDir 2 "a" 0))) := by
  obtain ⟨store', hrun, _, hiff⟩ := read_written_iff .sample Env.quiet Env.quiet (fun _ => rfl)
    (KVStore.openDb .empty) (KVStore.opened_openDb _) (plainDir 2 "a" 0) (by decide)
  exact ⟨store', hrun, hiff.mpr rfl⟩

/-- A directory with permissions `0755` comes back with none. -/
theorem permissions_lost :
    ∃ store', runRequest Env.quiet (commitRows .sample [(none, some (plainDir 2 "a" 0x1ED))])
        (KVStore.openDb .empty) = (.ok (.ok ()), store') ∧
      (runRequest Env.quiet (KVDirTable.read .sample ⟨2⟩).lift store').1 =
        .ok (.ok (some (plainDir 2 "a" 0))) ∧
      plainDir 2 "a" 0 ≠ plainDir 2 "a" 0x1ED := by
  obtain ⟨store', hrun, hread⟩ := exists_read_written .sample Env.quiet Env.quiet (fun _ => rfl)
    (KVStore.opened_openDb .empty) (plainDir 2 "a" 0x1ED) (by decide)
  exact ⟨store', hrun, hread, by decide⟩

end RocketFS
