import RocketFS.Lib.CreationOrder
import RocketFS.Service.Handlers

/-!
# The namespace as a list of created directories

The abstract view of a database that was filled by creating directories: the list
of their rows in the order of the commits. `dbOf` is the database that stands for a
list, and the lemmas read each column family off the list: the id-keyed records
show the row with that id, an entry shows the row created last under its parent and
name. For a list in creation order, this is enough to know what the table reads
return.
-/

namespace RocketFS

/-- The database after the rows were created one after the other. -/
def dbOf (fb : FlatBuffers) (rows : List Dir) : Database :=
  rows.foldl (fun db dir => db.write (dirWrites fb dir)) .empty

/-- Rows in the order of their creation under the root directory. -/
abbrev Created (rows : List Dir) : Prop :=
  CreationOrder Dir.id Dir.parentId kRootInodeID rows

section Write

variable (fb : FlatBuffers) (db : Database) (dir : Dir) (key : Bytes)

theorem dbOf_snoc (rows : List Dir) :
    dbOf fb (rows ++ [dir]) = (dbOf fb rows).write (dirWrites fb dir) := by
  rw [dbOf, List.foldl_append]
  rfl

/-! ### One creation -/

private theorem lookup_dirWrites (cf : CFIndex) :
    (dirWrites fb dir).lookup (cfKey cf key) =
      if cf = kDEntCFIndex ∧ key = DEntSerde.serKey dir.parentId dir.name then
        some (some (DEntSerde.serValDir fb dir))
      else if cf = kATimeCFIndex ∧ key = InodeSerde.serKey dir.id then
        some (some (TimeSerde.serVal dir.atimeInNs))
      else if cf = kMTimeCFIndex ∧ key = InodeSerde.serKey dir.id then
        some (some (TimeSerde.serVal dir.mtimeInNs))
      else if cf = kInodeCFIndex ∧ key = InodeSerde.serKey dir.id then
        some (some (InodeSerde.serValDir fb dir))
      else none := by
  simp only [dirWrites, SortedMap.lookup_insert, cfKey_inj, SortedMap.lookup_empty]

theorem get_inode_write :
    (db.write (dirWrites fb dir)).get kInodeCFIndex key =
      if key = InodeSerde.serKey dir.id then some (InodeSerde.serValDir fb dir)
      else db.get kInodeCFIndex key := by
  rw [Database.get_write, lookup_dirWrites]
  by_cases h : key = InodeSerde.serKey dir.id <;>
    simp [h, kInodeCFIndex, kMTimeCFIndex, kATimeCFIndex, kDEntCFIndex]

theorem get_mtime_write :
    (db.write (dirWrites fb dir)).get kMTimeCFIndex key =
      if key = InodeSerde.serKey dir.id then some (TimeSerde.serVal dir.mtimeInNs)
      else db.get kMTimeCFIndex key := by
  rw [Database.get_write, lookup_dirWrites]
  by_cases h : key = InodeSerde.serKey dir.id <;>
    simp [h, kInodeCFIndex, kMTimeCFIndex, kATimeCFIndex, kDEntCFIndex]

theorem get_atime_write :
    (db.write (dirWrites fb dir)).get kATimeCFIndex key =
      if key = InodeSerde.serKey dir.id then some (TimeSerde.serVal dir.atimeInNs)
      else db.get kATimeCFIndex key := by
  rw [Database.get_write, lookup_dirWrites]
  by_cases h : key = InodeSerde.serKey dir.id <;>
    simp [h, kInodeCFIndex, kMTimeCFIndex, kATimeCFIndex, kDEntCFIndex]

theorem get_dent_write :
    (db.write (dirWrites fb dir)).get kDEntCFIndex key =
      if key = DEntSerde.serKey dir.parentId dir.name then some (DEntSerde.serValDir fb dir)
      else db.get kDEntCFIndex key := by
  rw [Database.get_write, lookup_dirWrites]
  by_cases h : key = DEntSerde.serKey dir.parentId dir.name <;>
    simp [h, kInodeCFIndex, kMTimeCFIndex, kATimeCFIndex, kDEntCFIndex]

end Write

/-! ### The column families -/

section ColumnFamilies

variable (fb : FlatBuffers) (rows : List Dir) (key : Bytes)

/-- The row whose id-keyed records stand under a key. -/
def rowOfKey (rows : List Dir) (key : Bytes) : Option Dir :=
  lastRow (fun dir => key = InodeSerde.serKey dir.id) rows

/-- The row whose entry stands under a key. -/
def rowOfEntry (rows : List Dir) (key : Bytes) : Option Dir :=
  lastRow (fun dir => key = DEntSerde.serKey dir.parentId dir.name) rows

private theorem get_dbOf {cf : CFIndex} {p : Dir → Bool} {value : Dir → Bytes}
    (hstep : ∀ db dir, (Database.write db (dirWrites fb dir)).get cf key =
      if p dir then some (value dir) else db.get cf key) :
    (dbOf fb rows).get cf key = (lastRow p rows).map value := by
  induction rows using List.reverseRecOn with
  | nil => rfl
  | append_singleton rows dir ih =>
    rw [dbOf_snoc, hstep, ih, lastRow_snoc]
    split_ifs <;> rfl

theorem get_inode_dbOf : (dbOf fb rows).get kInodeCFIndex key =
    (rowOfKey rows key).map (InodeSerde.serValDir fb) :=
  get_dbOf fb rows key fun db dir => by simp only [get_inode_write, decide_eq_true_eq]

theorem get_mtime_dbOf : (dbOf fb rows).get kMTimeCFIndex key =
    (rowOfKey rows key).map fun dir => TimeSerde.serVal dir.mtimeInNs :=
  get_dbOf fb rows key fun db dir => by simp only [get_mtime_write, decide_eq_true_eq]

theorem get_atime_dbOf : (dbOf fb rows).get kATimeCFIndex key =
    (rowOfKey rows key).map fun dir => TimeSerde.serVal dir.atimeInNs :=
  get_dbOf fb rows key fun db dir => by simp only [get_atime_write, decide_eq_true_eq]

theorem get_dent_dbOf : (dbOf fb rows).get kDEntCFIndex key =
    (rowOfEntry rows key).map (DEntSerde.serValDir fb) :=
  get_dbOf fb rows key fun db dir => by simp only [get_dent_write, decide_eq_true_eq]

end ColumnFamilies

/-! ### Rows in creation order -/

section Created

variable {fb : FlatBuffers} {rows : List Dir} {dir : Dir} {id parentId : InodeID} {name : Bytes}

theorem rowOfKey_mem {key : Bytes} (h : rowOfKey rows key = some dir) :
    dir ∈ rows ∧ key = InodeSerde.serKey dir.id := by
  simpa using lastRow_mem h

theorem rowOfEntry_mem {key : Bytes} (h : rowOfEntry rows key = some dir) :
    dir ∈ rows ∧ key = DEntSerde.serKey dir.parentId dir.name := by
  simpa using lastRow_mem h

theorem rowOfKey_serKey (h : Created rows) (hdir : dir ∈ rows) :
    rowOfKey rows (InodeSerde.serKey dir.id) = some dir := by
  refine lastRow_of_unique hdir (by simp) fun r hr heq => ?_
  have hid : dir.id = r.id := InodeSerde.serKey_inj.mp (by simpa using heq)
  exact h.id_inj hr hdir hid.symm

theorem hasInode_dbOf : (dbOf fb rows).HasInode id ↔ ∃ dir ∈ rows, dir.id = id := by
  rw [Database.HasInode, get_inode_dbOf, Option.isSome_map]
  constructor
  · intro h
    obtain ⟨dir, hdir⟩ := Option.isSome_iff_exists.mp h
    obtain ⟨hmem, hkey⟩ := rowOfKey_mem hdir
    exact ⟨dir, hmem, (InodeSerde.serKey_inj.mp hkey).symm⟩
  · rintro ⟨dir, hdir, rfl⟩
    by_contra hnone
    rw [Bool.not_eq_true, Option.isSome_eq_false_iff, Option.isNone_iff_eq_none] at hnone
    exact absurd (lastRow_eq_none.mp hnone dir hdir) (by simp)

/-- An id-keyed read finds the last row of that id, but for the access control
list, which is not stored. -/
theorem ask_read_row (h : rowOfKey rows (InodeSerde.serKey id) = some dir)
    (hname : dir.name ≠ []) :
    ask (dbOf fb rows) (KVDirTable.read fb id) =
      .ok (.ok (some { dir with acl := Acl.zero })) := by
  refine KVDirTable.ask_read_some hname ?_ ?_ ?_
  · rw [get_inode_dbOf, h, Option.map_some]
  · rw [get_mtime_dbOf, h, Option.map_some]
  · rw [get_atime_dbOf, h, Option.map_some]

theorem ask_read_dbOf (h : Created rows) (hdir : dir ∈ rows) (hname : dir.name ≠ []) :
    ask (dbOf fb rows) (KVDirTable.read fb dir.id) =
      .ok (.ok (some { dir with acl := Acl.zero })) :=
  ask_read_row (rowOfKey_serKey h hdir) hname

/-- No read of a row fails. -/
theorem exists_ask_read (hnames : ∀ dir ∈ rows, dir.name ≠ []) (id : InodeID) :
    ∃ dir, ask (dbOf fb rows) (KVDirTable.read fb id) = .ok (.ok dir) := by
  cases hrow : rowOfKey rows (InodeSerde.serKey id) with
  | some dir => exact ⟨_, ask_read_row hrow (hnames dir (rowOfKey_mem hrow).1)⟩
  | none =>
    refine ⟨_, KVDirTable.ask_read_none ?_⟩
    rw [get_inode_dbOf, hrow, Option.map_none]

/-- The row of an existing directory is found. -/
theorem exists_ask_read_some (hnames : ∀ dir ∈ rows, dir.name ≠ [])
    (h : id = kRootInodeID ∨ (dbOf fb rows).HasInode id) :
    ∃ dir, ask (dbOf fb rows) (KVDirTable.read fb id) = .ok (.ok (some dir)) := by
  cases hrow : rowOfKey rows (InodeSerde.serKey id) with
  | some dir => exact ⟨_, ask_read_row hrow (hnames dir (rowOfKey_mem hrow).1)⟩
  | none =>
    have hnone : (dbOf fb rows).get kInodeCFIndex (InodeSerde.serKey id) = none := by
      rw [get_inode_dbOf, hrow, Option.map_none]
    have hroot : id = kRootInodeID := by
      refine h.resolve_right fun hinode => ?_
      rw [Database.HasInode, hnone] at hinode
      cases hinode
    exact ⟨rootDir, by rw [KVDirTable.ask_read_none hnone, if_pos hroot]⟩

end Created

end RocketFS
