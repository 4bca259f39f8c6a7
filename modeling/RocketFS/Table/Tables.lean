import RocketFS.Table.Serde

/-!
# `KVDirTable` and `KVDEntView`

The directory table over the four column families, and the view that lists the
entries of a directory. The lemmas say what each read returns on a database whose
records are known; the root directory has no record and is made up by the table.
-/

namespace RocketFS

/-- The row `KVDirTable::Read` returns for a root directory without a record. -/
def rootDir : Dir where
  parentId := kRootInodeID
  name := []
  id := kRootInodeID
  acl := ⟨0, 0, ALLPERMS⟩
  ctimeInNs := 0
  mtimeInNs := 0
  atimeInNs := 0

/-- `co_return std::unexpected(Status::SystemError(msg, error))`. -/
def unexpected {α : Type} (msg : Bytes) (error : Status) (location : SourceLocation) :
    ReadM (Except Status α) := do
  let status ← Status.systemError msg (some error) location
  return .error status

namespace KVDirTable

/-- The part of `Read` that follows the inode: one time of the row, from its own
column family. -/
def readTime (cf : CFIndex) (id : InodeID) (time condition : String) (line : ℕ) :
    ReadM (Except Status Int64) := do
  match ← ReadM.get cf (InodeSerde.serKey id) with
  | .error error =>
    unexpected (ascii "Failed to retrieve " ++ ascii time ++ ascii " for inode " ++
      decimal id.val.toNat ++ ascii ".") error ⟨"src/namenode/table/kv/kv_dir_table.cc", line⟩
  | .ok none => Program.done (.error (.check condition))
  | .ok (some str) => return .ok (← TimeSerde.deVal str)

/-- `Read(InodeID)`. -/
def read (fb : FlatBuffers) (id : InodeID) : ReadM (Except Status (Option Dir)) := do
  match ← ReadM.get kInodeCFIndex (InodeSerde.serKey id) with
  | .error error =>
    unexpected (ascii "Failed to retrieve inode for inode " ++ decimal id.val.toNat ++ ascii ".")
      error ⟨"src/namenode/table/kv/kv_dir_table.cc", 51⟩
  | .ok none => return .ok (if id = kRootInodeID then some rootDir else none)
  | .ok (some inodeStr) =>
    match ← InodeSerde.deVal fb inodeStr with
    | .inr _ => return .ok none
    | .inl dir =>
      match ← readTime kMTimeCFIndex id "mtime" "(*mtime_str) != std::nullopt" 77 with
      | .error status => return .error status
      | .ok mtimeInNs =>
        match ← readTime kATimeCFIndex id "atime" "(*atime_str) != std::nullopt" 87 with
        | .error status => return .error status
        | .ok atimeInNs =>
          return .ok (some { dir with mtimeInNs := mtimeInNs, atimeInNs := atimeInNs })

/-- `Write`. -/
def write (fb : FlatBuffers) (orig mod : Option Dir) : HandlerM Unit := do
  (InodeSerde.dir fb).write kInodeCFIndex orig mod
  MTimeSerde.dir.write kMTimeCFIndex orig mod
  ATimeSerde.dir.write kATimeCFIndex orig mod
  (DEntSerde.dir fb).write kDEntCFIndex orig mod

end KVDirTable

/-- `DirTableBase`, as far as the handlers use it. -/
structure DirTableBase where
  read : InodeID → ReadM (Except Status (Option Dir))
  write : Option Dir → Option Dir → HandlerM Unit

/-- The one table there is. -/
def KVDirTable.table (fb : FlatBuffers) : DirTableBase := ⟨KVDirTable.read fb, KVDirTable.write fb⟩

@[simp] theorem KVDirTable.table_read (fb : FlatBuffers) : (table fb).read = read fb := rfl

namespace KVDEntView

/-- `Read`: `none` stands for `std::monostate`. -/
def read (fb : FlatBuffers) (parentId : InodeID) (name : Bytes) :
    ReadM (Except Status (Option (Dir ⊕ HardLink))) := do
  match ← ReadM.get kDEntCFIndex (DEntSerde.serKey parentId name) with
  | .error error =>
    unexpected (ascii "Failed to retrieve dir entry for parent inode " ++
      decimal parentId.val.toNat ++ ascii " and name " ++ name ++ ascii ".")
      error ⟨"src/namenode/table/kv/kv_dent_view.cc", 36⟩
  | .ok none => return .ok none
  | .ok (some dentStr) => return .ok (some (← DEntSerde.deVal fb dentStr))

/-- The end key of `List`: the parent and the one byte `"\xFF"`. -/
def endKey (parentId : InodeID) : Bytes := DEntSerde.serKey parentId [0xFF]

/-- `List`. -/
def list (fb : FlatBuffers) (parentId : InodeID) (startAfter : Bytes) (limit : ℕ) :
    ReadM (Except Status (List (Dir ⊕ HardLink))) := do
  match ← ReadM.getRange kDEntCFIndex (DEntSerde.serKey parentId startAfter)
      (endKey parentId) limit with
  | .error error =>
    unexpected (ascii "Failed to retrieve dir entries for parent inode " ++
      decimal parentId.val.toNat ++ ascii " and start after " ++ startAfter ++ ascii ".")
      error ⟨"src/namenode/table/kv/kv_dent_view.cc", 65⟩
  | .ok dentStrs => return .ok (← (dentStrs.mapM (DEntSerde.deVal fb) : Except Crash _))

end KVDEntView

/-! ### What the reads return -/

section Reads

variable {fb : FlatBuffers} {db : Database} {id parentId : InodeID} {name : Bytes}

theorem KVDirTable.ask_readTime {cf : CFIndex} (hcf : cf.Opened) {timeInNs : Int64}
    (h : db.get cf (InodeSerde.serKey id) = some (TimeSerde.serVal timeInNs))
    (time condition : String) (line : ℕ) :
    ask db (readTime cf id time condition line) = .ok (.ok timeInNs) := by
  rw [readTime, ask_bind, ask_get hcf, h]
  change ask db (Program.done (TimeSerde.deVal (TimeSerde.serVal timeInNs)) >>= _) = _
  rw [TimeSerde.deVal_serVal]
  rfl

/-- The root directory without a record. -/
theorem KVDirTable.ask_read_none (h : db.get kInodeCFIndex (InodeSerde.serKey id) = none) :
    ask db (read fb id) = .ok (.ok (if id = kRootInodeID then some rootDir else none)) := by
  rw [read, ask_bind, ask_get (by decide), h]
  rfl

/-- A row that was written. -/
theorem KVDirTable.ask_read_some {dir : Dir} (hname : dir.name ≠ [])
    (hinode : db.get kInodeCFIndex (InodeSerde.serKey id) = some (InodeSerde.serValDir fb dir))
    (hmtime : db.get kMTimeCFIndex (InodeSerde.serKey id) =
      some (TimeSerde.serVal dir.mtimeInNs))
    (hatime : db.get kATimeCFIndex (InodeSerde.serKey id) =
      some (TimeSerde.serVal dir.atimeInNs)) :
    ask db (read fb id) = .ok (.ok (some { dir with acl := Acl.zero })) := by
  rw [read, ask_bind, ask_get (by decide), hinode]
  change ask db (Program.done (InodeSerde.deVal fb (InodeSerde.serValDir fb dir)) >>= _) = _
  rw [InodeSerde.deVal_serValDir fb dir hname, Program.done_ok_bind, ask_bind,
    ask_readTime (by decide) hmtime]
  change ask db (readTime kATimeCFIndex id "atime" "(*atime_str) != std::nullopt" 87 >>= _) = _
  rw [ask_bind, ask_readTime (by decide) hatime]
  rfl

theorem KVDEntView.ask_read_none
    (h : db.get kDEntCFIndex (DEntSerde.serKey parentId name) = none) :
    ask db (read fb parentId name) = .ok (.ok none) := by
  rw [read, ask_bind, ask_get (by decide), h]
  rfl

theorem KVDEntView.ask_read_some {val : Bytes} {ent : Dir ⊕ HardLink}
    (h : db.get kDEntCFIndex (DEntSerde.serKey parentId name) = some val)
    (hval : DEntSerde.deVal fb val = .ok ent) :
    ask db (read fb parentId name) = .ok (.ok (some ent)) := by
  rw [read, ask_bind, ask_get (by decide), h]
  change ask db (Program.done (DEntSerde.deVal fb val) >>= _) = _
  rw [hval]
  rfl

theorem KVDEntView.ask_list (startAfter : Bytes) (limit : ℕ) {ents : List (Dir ⊕ HardLink)}
    (h : (db.range kDEntCFIndex (DEntSerde.serKey parentId startAfter)
      (endKey parentId) limit).mapM (DEntSerde.deVal fb) = .ok ents) :
    ask db (list fb parentId startAfter limit) = .ok (.ok ents) := by
  rw [list, ask_bind, ask_getRange (by decide)]
  change ask db (Program.done (List.mapM _ _) >>= _) = _
  rw [h]
  rfl

end Reads

end RocketFS
