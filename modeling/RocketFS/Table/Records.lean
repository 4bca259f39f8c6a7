import RocketFS.Common.Status

/-!
# Inode ids, access control, and the records of the tables

The rows of `DirTable`, `FileTable` and `HardLinkTable`, the permission check,
and the mode bits of `<sys/stat.h>` the code uses.
-/

namespace RocketFS

/-- `InodeID`. -/
structure InodeID where
  val : UInt64
  deriving DecidableEq, Repr

def kInvalidInodeID : InodeID := ⟨0xFFFFFFFFFFFFFFFF⟩

def kRootInodeID : InodeID := ⟨1⟩

/-! ### Mode bits -/

/-- `ALLPERMS`, octal 7777. -/
def ALLPERMS : UInt64 := 0xFFF
/-- `S_ISGID`, octal 2000. -/
def S_ISGID : UInt64 := 0x400
/-- `S_IRUSR`, octal 0400. -/
def S_IRUSR : UInt64 := 0x100
/-- `S_IWOTH`, octal 0002. -/
def S_IWOTH : UInt64 := 0x2
/-- `S_IFDIR`, octal 040000. -/
def S_IFDIR : UInt64 := 0x4000
/-- `S_IFREG`, octal 0100000. -/
def S_IFREG : UInt64 := 0x8000

/-! ### Access control -/

structure Acl where
  uid : UInt32
  gid : UInt32
  perm : UInt64
  deriving DecidableEq, Repr

/-- `Acl{}`: what an omitted `acl` is initialised to. -/
def Acl.zero : Acl := ⟨0, 0, 0⟩

structure User where
  uid : UInt32
  gid : UInt32
  deriving DecidableEq, Repr

/-- The bits `CheckPermission` asks the ACL for: those of the one class that
applies to the user. -/
def permNeeded (acl : Acl) (user : User) (perm : UInt64) : UInt64 :=
  if user.uid = 0 then 0
  else if user.uid = acl.uid then perm <<< 6
  else if user.gid = acl.gid then perm <<< 3
  else perm

/-- The text of the error of `CheckPermission`. -/
def permissionMsg (acl : Acl) (user : User) (perm : UInt64) : Bytes :=
  ascii "User \x7buid: " ++ decimal user.uid.toNat ++ ascii ", gid: " ++
    decimal user.gid.toNat ++ ascii "\x7d does not have permission for " ++
    decimal perm.toNat ++ ascii " in ACL \x7buid: " ++ decimal acl.uid.toNat ++
    ascii ", gid: " ++ decimal acl.gid.toNat ++ ascii ", perm: " ++
    octal4 acl.perm.toNat ++ ascii "\x7d."

/-- `CheckPermission`: `none` when the user holds the permission. -/
def checkPermission (acl : Acl) (user : User) (perm : UInt64) :
    Except Crash (Except Status Unit) :=
  if acl.perm &&& permNeeded acl user perm ≠ permNeeded acl user perm then do
    let status ← Status.permissionError (permissionMsg acl user perm) none
      ⟨"src/namenode/table/dir_table_base.h", 74⟩
    return .error status
  else return .ok ()

/-- The user holds the permission asked for. -/
def HasPermission (acl : Acl) (user : User) (perm : UInt64) : Prop :=
  acl.perm &&& permNeeded acl user perm = permNeeded acl user perm

instance (acl : Acl) (user : User) (perm : UInt64) : Decidable (HasPermission acl user perm) :=
  inferInstanceAs (Decidable (_ = _))

theorem checkPermission_of_has {acl : Acl} {user : User} {perm : UInt64}
    (h : HasPermission acl user perm) : checkPermission acl user perm = .ok (.ok ()) := by
  rw [HasPermission] at h
  rw [checkPermission, if_neg (not_not.mpr h)]
  rfl

/-- A refused user gets a `PermissionError`; building it passes the checks of
`Status`. -/
theorem checkPermission_of_not {acl : Acl} {user : User} {perm : UInt64}
    (h : ¬ HasPermission acl user perm) :
    ∃ status, checkPermission acl user perm = .ok (.error status) ∧
      status.statusCode = .permissionError := by
  have hback : (permissionMsg acl user perm).getLast? = some fullStop :=
    getLast?_append_of_eq _ (by decide)
  obtain ⟨status, hmake, hcode⟩ := Status.make_of_getLast? .permissionError hback none
    ⟨"src/namenode/table/dir_table_base.h", 74⟩
  refine ⟨status, ?_, hcode⟩
  rw [HasPermission] at h
  rw [checkPermission, if_pos h, Status.permissionError, hmake]
  rfl

/-- The superuser holds every permission. -/
theorem hasPermission_of_uid_zero (acl : Acl) {user : User} (perm : UInt64) (h : user.uid = 0) :
    HasPermission acl user perm := by
  simp [HasPermission, permNeeded, h]

/-! ### Rows -/

structure Dir where
  parentId : InodeID
  name : Bytes
  id : InodeID
  acl : Acl
  ctimeInNs : Int64
  mtimeInNs : Int64
  atimeInNs : Int64
  deriving DecidableEq

/-- The parent and the name of a row. -/
def Dir.place (dir : Dir) : InodeID × Bytes := (dir.parentId, dir.name)

structure File where
  id : InodeID
  acl : Acl
  ctimeInNs : Int64
  mtimeInNs : Int64
  atimeInNs : Int64
  deriving DecidableEq

structure HardLink where
  parentId : InodeID
  name : Bytes
  id : InodeID
  deriving DecidableEq

end RocketFS
