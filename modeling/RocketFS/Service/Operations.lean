import RocketFS.Table.Tables

/-!
# The operations of the namenode

`GetInodeOp`, `LookupOp`, `ListDirOp` and `MkdirsOp` with their requests and
responses. The first three only read. A message field that is not set has its
default; a submessage that is not set is `none`. `ListDirOp` and `MkdirsOp` are written over
any `DirTableBase`; the namenode runs them on `KVDirTable`.
-/

namespace RocketFS

/-! ### Messages -/

structure Stat where
  id : UInt64 := 0
  mode : UInt64 := 0
  nlink : Int32 := 0
  uid : UInt64 := 0
  gid : UInt64 := 0
  size : Int64 := 0
  atimeInNs : Int64 := 0
  mtimeInNs : Int64 := 0
  ctimeInNs : Int64 := 0
  blockSize : Int64 := 0
  blockNum : Int64 := 0
  deriving DecidableEq

structure GetInodeRequest where
  id : Option UInt64
  deriving DecidableEq

structure GetInodeResponse where
  errorCode : Int32 := 0
  errorMsg : Bytes := []
  id : Int64 := 0
  stat : Option Stat := none
  deriving DecidableEq

structure LookupRequest where
  parentId : UInt64
  name : Bytes
  deriving DecidableEq

structure LookupResponse where
  errorCode : Int32 := 0
  errorMsg : Bytes := []
  id : Int64 := 0
  stat : Option Stat := none
  deriving DecidableEq

structure ListDirRequest where
  id : UInt64
  startAfter : Bytes
  limit : Int32
  uid : UInt32
  gid : UInt32
  deriving DecidableEq

/-- `ListDirResponse::DEnt`. -/
structure DEnt where
  id : UInt64
  name : Bytes
  type : UInt32
  deriving DecidableEq

structure ListDirResponse where
  errorCode : Int32 := 0
  errorMsg : Bytes := []
  selfDent : Option DEnt := none
  parentDent : Option DEnt := none
  ents : List DEnt := []
  hasMore : Bool := false
  deriving DecidableEq

structure MkdirsRequest where
  parentId : UInt64
  name : Bytes
  mode : UInt64
  uid : UInt32
  gid : UInt32
  deriving DecidableEq

structure MkdirsResponse where
  errorCode : Int32 := 0
  errorMsg : Bytes := []
  id : UInt64 := 0
  stat : Option Stat := none
  deriving DecidableEq

/-- The `Stat` the operations fill in for a directory. -/
def Dir.stat (dir : Dir) : Stat where
  id := dir.id.val
  mode := S_IFDIR ||| dir.acl.perm
  nlink := 1
  uid := dir.acl.uid.toUInt64
  gid := dir.acl.gid.toUInt64
  atimeInNs := dir.atimeInNs
  mtimeInNs := dir.mtimeInNs
  ctimeInNs := dir.ctimeInNs

/-! ### GetInode -/

namespace GetInodeOp

def run (fb : FlatBuffers) (req : GetInodeRequest) : ReadM GetInodeResponse := do
  let id : InodeID := ⟨req.id.getD 0⟩
  match ← KVDirTable.read fb id with
  | .error error =>
    let status ← Status.systemError
      (ascii "Failed to retrieve inode " ++ decimal id.val.toNat ++ ascii ".") (some error)
      ⟨"src/namenode/service/operation/get_inode_op.cc", 35⟩
    return { errorCode := status.statusCode.toInt32, errorMsg := status.msg }
  | .ok none =>
    let status ← Status.notFoundError
      (ascii "Inode " ++ decimal id.val.toNat ++ ascii " not found.") none
      ⟨"src/namenode/service/operation/get_inode_op.cc", 42⟩
    return { errorCode := status.statusCode.toInt32, errorMsg := status.msg }
  | .ok (some dir) => return { id := dir.id.val.toInt64, stat := some dir.stat }

end GetInodeOp

/-! ### Lookup -/

namespace LookupOp

def run (fb : FlatBuffers) (req : LookupRequest) : ReadM LookupResponse := do
  let parentId : InodeID := ⟨req.parentId⟩
  match ← KVDEntView.read fb parentId req.name with
  | .error error =>
    -- the source passes the name first
    let status ← Status.systemError
      (ascii "Failed to look up with parent ID " ++ req.name ++ ascii " and name " ++
        decimal parentId.val.toNat ++ ascii ".") (some error)
      ⟨"src/namenode/service/operation/lookup_op.cc", 37⟩
    return { errorCode := status.statusCode.toInt32, errorMsg := status.msg }
  | .ok none =>
    let status ← Status.notFoundError
      (ascii "Parent ID " ++ decimal parentId.val.toNat ++ ascii " and name " ++ req.name ++
        ascii " not found.") none
      ⟨"src/namenode/service/operation/lookup_op.cc", 47⟩
    return { errorCode := status.statusCode.toInt32, errorMsg := status.msg }
  | .ok (some (.inl dir)) => return { id := dir.id.val.toInt64, stat := some dir.stat }
  | .ok (some (.inr hardLink)) =>
    return {
      id := hardLink.id.val.toInt64
      stat := some { id := hardLink.id.val, mode := S_IFREG, nlink := 1 } }

end LookupOp

/-! ### ListDir -/

namespace ListDirOp

/-- `FLAGS_list_dir_default_limit`, its default. -/
def listDirDefaultLimit : ℕ := 100

/-- The limit passed to `List`. -/
def effectiveLimit (req : ListDirRequest) : ℕ :=
  if 0 < req.limit then req.limit.toInt.toNat else listDirDefaultLimit

/-- A directory entry of the response. -/
def dirDent (id : InodeID) (name : Bytes) : DEnt := ⟨id.val, name, S_IFDIR.toUInt32⟩

/-- The entry added for each of the entries listed. -/
def dent : Dir ⊕ HardLink → DEnt
  | .inl dir => dirDent dir.id dir.name
  | .inr hardLink => ⟨hardLink.id.val, hardLink.name, S_IFREG.toUInt32⟩

/-- `".."`: the root is its own parent; a missing grandparent is left out. -/
def parentDent (table : DirTableBase) (parentId : InodeID) (parentDir : Dir) :
    ReadM (Except Status (Option DEnt)) := do
  if parentId = kRootInodeID then return .ok (some (dirDent parentId (ascii "..")))
  else
    let grandparentId := parentDir.parentId
    match ← table.read grandparentId with
    | .error error =>
      unexpected (ascii "Unable to get grandparent inode " ++ decimal grandparentId.val.toNat ++
        ascii ".") error ⟨"src/namenode/service/operation/list_dir_op.cc", 79⟩
    | .ok none => return .ok none
    | .ok (some _) => return .ok (some (dirDent grandparentId (ascii "..")))

/-- The entries that only the first request of a listing returns. -/
def dots (table : DirTableBase) (req : ListDirRequest) (parentId : InodeID) (parentDir : Dir) :
    ReadM (Except Status (Option DEnt × Option DEnt)) := do
  if req.startAfter.isEmpty then
    match ← parentDent table parentId parentDir with
    | .error status => return .error status
    | .ok parent => return .ok (some (dirDent parentId (ascii ".")), parent)
  else return .ok (none, none)

/-- The part of `Run` behind the permission check. -/
def listing (fb : FlatBuffers) (table : DirTableBase) (req : ListDirRequest) (parentDir : Dir) :
    ReadM ListDirResponse := do
  let parentId : InodeID := ⟨req.id⟩
  match ← dots table req parentId parentDir with
  | .error status =>
    return { errorCode := status.statusCode.toInt32, errorMsg := status.msg }
  | .ok (self, parent) =>
    match ← KVDEntView.list fb parentId req.startAfter (effectiveLimit req) with
    | .error error =>
      let status ← Status.systemError
        (ascii "Unable to list directory " ++ decimal parentId.val.toNat ++ ascii ".")
        (some error) ⟨"src/namenode/service/operation/list_dir_op.cc", 99⟩
      return { errorCode := status.statusCode.toInt32, errorMsg := status.msg }
    | .ok ents =>
      return {
        selfDent := self
        parentDent := parent
        ents := ents.map dent
        -- `int32_t` is converted to `size_t`
        hasMore := ents.length = req.limit.toInt64.toUInt64.toNat }

/-- `Run` over any table. -/
def runOn (fb : FlatBuffers) (table : DirTableBase) (req : ListDirRequest) :
    ReadM ListDirResponse := do
  let parentId : InodeID := ⟨req.id⟩
  match ← table.read parentId with
  | .error error =>
    let status ← Status.systemError
      (ascii "Unable to get parent inode " ++ decimal parentId.val.toNat ++ ascii ".")
      (some error) ⟨"src/namenode/service/operation/list_dir_op.cc", 41⟩
    return { errorCode := status.statusCode.toInt32, errorMsg := status.msg }
  | .ok none =>
    let status ← Status.parentNotFoundError
      (ascii "Parent inode " ++ decimal parentId.val.toNat ++ ascii " not found.") none
      ⟨"src/namenode/service/operation/list_dir_op.cc", 48⟩
    return { errorCode := status.statusCode.toInt32, errorMsg := status.msg }
  | .ok (some parentDir) =>
    match ← checkPermission parentDir.acl ⟨req.uid, req.gid⟩ S_IRUSR with
    | .error error =>
      let status ← Status.permissionError
        (ascii "Permission denied on parent inode " ++ decimal parentId.val.toNat ++ ascii ".")
        (some error) ⟨"src/namenode/service/operation/list_dir_op.cc", 56⟩
      return { errorCode := status.statusCode.toInt32, errorMsg := status.msg }
    | .ok () => listing fb table req parentDir

/-- `Run` of the namenode. -/
def run (fb : FlatBuffers) (req : ListDirRequest) : ReadM ListDirResponse :=
  runOn fb (KVDirTable.table fb) req

end ListDirOp

/-! ### Mkdirs -/

namespace MkdirsOp

/-- The access control list of the new directory: the group of a parent with the
set-group-ID bit is inherited together with the bit. -/
def newAcl (req : MkdirsRequest) (parentDir : Dir) : Acl :=
  if parentDir.acl.perm &&& S_ISGID ≠ 0 then
    ⟨req.uid, parentDir.acl.gid, (req.mode &&& ALLPERMS) ||| S_ISGID⟩
  else ⟨req.uid, req.gid, req.mode &&& ALLPERMS⟩

/-- The row `Run` writes. -/
def newDir (req : MkdirsRequest) (parentDir : Dir) (id : InodeID) (nowNs : Int64) : Dir where
  parentId := ⟨req.parentId⟩
  name := req.name
  id := id
  acl := newAcl req parentDir
  ctimeInNs := nowNs
  mtimeInNs := nowNs
  atimeInNs := nowNs

/-- The part of `Run` behind the checks. The result of the commit is not looked at. -/
def create (table : DirTableBase) (req : MkdirsRequest) (parentDir : Dir) :
    HandlerM MkdirsResponse := do
  let id ← HandlerM.next
  let nowNs ← HandlerM.nowNs
  let dir := newDir req parentDir id nowNs
  table.write none (some dir)
  let _ ← HandlerM.commitTxn
  return { id := dir.id.val, stat := some dir.stat }

/-- `Run` over any table. -/
def runOn (table : DirTableBase) (req : MkdirsRequest) : HandlerM MkdirsResponse := do
  let parentId : InodeID := ⟨req.parentId⟩
  match ← (table.read parentId).lift with
  | .error _ => return { errorCode := StatusCode.systemError.toInt32 }
  | .ok none => return { errorCode := StatusCode.parentNotFoundError.toInt32 }
  | .ok (some parentDir) =>
    match ← checkPermission parentDir.acl ⟨req.uid, req.gid⟩ S_IWOTH with
    | .error _ => return { errorCode := StatusCode.permissionError.toInt32 }
    | .ok () => create table req parentDir

/-- `Run` of the namenode. -/
def run (fb : FlatBuffers) (req : MkdirsRequest) : HandlerM MkdirsResponse :=
  runOn (KVDirTable.table fb) req

end MkdirsOp

/-! ### Requests of any kind -/

inductive Request
  | getInode (req : GetInodeRequest)
  | lookup (req : LookupRequest)
  | listDir (req : ListDirRequest)
  | mkdirs (req : MkdirsRequest)
  deriving DecidableEq

inductive Response
  | getInode (resp : GetInodeResponse)
  | lookup (resp : LookupResponse)
  | listDir (resp : ListDirResponse)
  | mkdirs (resp : MkdirsResponse)
  deriving DecidableEq

/-- The error code of a response. -/
def Response.errorCode : Response → Int32
  | .getInode resp => resp.errorCode
  | .lookup resp => resp.errorCode
  | .listDir resp => resp.errorCode
  | .mkdirs resp => resp.errorCode

/-- The handler of a request. -/
def Request.run (fb : FlatBuffers) : Request → HandlerM Response
  | .getInode req => return .getInode (← (GetInodeOp.run fb req).lift)
  | .lookup req => return .lookup (← (LookupOp.run fb req).lift)
  | .listDir req => return .listDir (← (ListDirOp.run fb req).lift)
  | .mkdirs req => return .mkdirs (← MkdirsOp.run fb req)

end RocketFS
