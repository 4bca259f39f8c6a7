import RocketFS.Service.Operations

/-!
# Who may list and who may create

The permission checks of `ListDirOp` and `MkdirsOp` against the classes and
permissions that `dir_table_base.h` documents. `CheckPermission` takes the permission
at the position of the others class and shifts it to the class that applies.

`ListDirOp` passes the bit of the user class instead, so the bits that are tested are
not the read bits of any class but the last (`listDir_permission_iff`). `MkdirsOp`
passes the write bit of the others class alone, and does not ask for the execute bit
that writing to a directory requires (`mkdirs_permission_iff`).

The handlers are taken over any `DirTableBase` (`ListDirOp.runOn`, `MkdirsOp.runOn`), since
the one table there is returns the same access control list for every row it has read.

## Main definitions

* `Acl.Grants` — what the documentation grants to a user
* `ListDirOp.PassesCheck`, `MkdirsOp.PassesCheck` — the handler does not answer with a
  `PermissionError`

## Main results

* `listDir_permission_iff` — where `ListDir` follows the documentation
* `mkdirs_permission_iff` — where `Mkdirs` follows the documentation
-/

namespace RocketFS

/-! ### Classes and permissions -/

/-- The class of an inode's permissions that applies to a user. -/
inductive AccessClass
  | user
  | group
  | others
  deriving DecidableEq

/-- The permissions each class has. -/
inductive Access
  | read
  | write
  | execute
  deriving DecidableEq

/-- The mode bits, `S_IRUSR` to `S_IXOTH`. -/
def modeBit : AccessClass → Access → UInt64
  | .user, .read => S_IRUSR
  | .user, .write => 0x80
  | .user, .execute => 0x40
  | .group, .read => 0x20
  | .group, .write => 0x10
  | .group, .execute => 0x8
  | .others, .read => 0x4
  | .others, .write => S_IWOTH
  | .others, .execute => 0x1

/-- `S_ISUID`, octal 4000. -/
def S_ISUID : UInt64 := 0x800

namespace Acl

def classOf (acl : Acl) (user : User) : AccessClass :=
  if user.uid = acl.uid then .user
  else if user.gid = acl.gid then .group
  else .others

def HasBits (acl : Acl) (bits : UInt64) : Prop := acl.perm &&& bits = bits

instance (acl : Acl) (bits : UInt64) : Decidable (acl.HasBits bits) :=
  inferInstanceAs (Decidable (_ = _))

/-- The documented permissions: the superuser has all, and everyone else those of the
one class that applies. -/
def Grants (acl : Acl) (user : User) (access : Access) : Prop :=
  user.uid = 0 ∨ acl.HasBits (modeBit (acl.classOf user) access)

instance (acl : Acl) (user : User) (access : Access) : Decidable (acl.Grants user access) :=
  inferInstanceAs (Decidable (_ ∨ _))

end Acl

/-- How far `CheckPermission` shifts the permission for a class. -/
def AccessClass.shift : AccessClass → UInt64
  | .user => 6
  | .group => 3
  | .others => 0

section Check

variable {acl : Acl} {user : User}

/-- `CheckPermission` tests the permission at the position of the class that applies. -/
theorem hasPermission_iff {perm : UInt64} : HasPermission acl user perm ↔
    user.uid = 0 ∨ acl.HasBits (perm <<< (acl.classOf user).shift) := by
  by_cases hroot : user.uid = 0
  · exact iff_of_true (hasPermission_of_uid_zero acl perm hroot) (.inl hroot)
  rw [or_iff_right hroot, HasPermission, permNeeded, if_neg hroot, Acl.HasBits, Acl.classOf]
  split_ifs
  · rfl
  · rfl
  · rw [AccessClass.shift, UInt64.shiftLeft_zero]

/-- The write bit of the others class is shifted to the write bit of each class. -/
theorem shift_write (c : AccessClass) : S_IWOTH <<< c.shift = modeBit c .write := by
  cases c <;> rfl

/-- Twelve bits do not reach the bit that is tested for the owner of a directory. -/
theorem not_hasBits_of_lt (hperm : acl.perm < 0x1000) :
    ¬ acl.HasBits (S_IRUSR <<< AccessClass.user.shift) := by
  intro hbits
  have hle : (acl.perm &&& 0x4000).toNat ≤ acl.perm.toNat := by
    rw [UInt64.toNat_and]
    exact Nat.and_le_left
  have hlt : acl.perm.toNat < 0x1000 := UInt64.lt_iff_toNat_lt.mp hperm
  have heq : acl.perm &&& 0x4000 = 0x4000 := hbits
  rw [heq] at hle
  exact absurd hle (by simp; omega)

end Check

/-! ### The checks -/

namespace ListDirOp

variable {σ : Type} {serve : σ → (op : ReadOp) → Except Crash op.Answer × σ} {s s' : σ}
  {fb : FlatBuffers} {table : DirTableBase} {req : ListDirRequest} {dir : Dir}

/-- The handler does not answer with a `PermissionError`, however its reads are served. -/
def PassesCheck (serve : σ → (op : ReadOp) → Except Crash op.Answer × σ) (s : σ)
    (fb : FlatBuffers) (table : DirTableBase) (req : ListDirRequest) : Prop :=
  ∀ resp s', (runOn fb table req).exec serve s = (.ok resp, s') →
    resp.errorCode ≠ StatusCode.permissionError.toInt32

/-- A message that ends in a full stop is answered. -/
theorem exec_status {β : Type} {code : StatusCode} {msg : Bytes} {internal : Option Status}
    {location : SourceLocation} (hback : msg.getLast? = some fullStop) (f : Status → β) :
    ∃ status, status.statusCode = code ∧
      (do return f (← Status.make code msg internal location) : ReadM β).exec serve s =
        (.ok (f status), s) := by
  obtain ⟨status, hmake, hcode⟩ := Status.make_of_getLast? code hback internal location
  refine ⟨status, hcode, ?_⟩
  rw [hmake]
  rfl

theorem statusCode_of_exec {code : StatusCode} {msg : Bytes} {internal : Option Status}
    {location : SourceLocation} {status : Status}
    (h : (liftM (Status.make code msg internal location) : ReadM Status).exec serve s =
      (.ok status, s')) : status.statusCode = code :=
  Status.statusCode_of_make (Prod.mk.inj h).1

/-- What is reported about a failed read is a `SystemError`. -/
theorem statusCode_of_unexpected {α : Type} {msg : Bytes} {error : Status}
    {location : SourceLocation} {status : Status}
    (h : (unexpected msg error location : ReadM (Except Status α)).exec serve s =
      (.ok (.error status), s')) : status.statusCode = .systemError := by
  rw [unexpected] at h
  obtain ⟨made, _, hmake, h⟩ := Program.exec_bind_eq_ok h
  obtain rfl := Except.error.inj (Except.ok.inj (Prod.mk.inj h).1)
  exact statusCode_of_exec hmake

theorem statusCode_of_dots {parentId : InodeID} {status : Status}
    (h : (dots table req parentId dir).exec serve s = (.ok (.error status), s')) :
    status.statusCode = .systemError := by
  rw [dots] at h
  split_ifs at h
  · obtain ⟨parent, t, hparent, h⟩ := Program.exec_bind_eq_ok h
    rcases parent with status' | parent
    · obtain rfl := Except.error.inj (Except.ok.inj (Prod.mk.inj h).1)
      -- the one error there is: the row of the grandparent could not be read
      rw [parentDent] at hparent
      split_ifs at hparent
      · cases hparent
      · obtain ⟨read, _, _, hparent⟩ := Program.exec_bind_eq_ok hparent
        rcases read with error | _ | _
        · exact statusCode_of_unexpected hparent
        · cases hparent
        · cases hparent
    · cases h
  · cases h

/-- Behind the check nothing answers with a `PermissionError`. -/
theorem errorCode_of_listing {resp : ListDirResponse}
    (h : (listing fb table req dir).exec serve s = (.ok resp, s')) :
    resp.errorCode ≠ StatusCode.permissionError.toInt32 := by
  rw [listing] at h
  obtain ⟨dots, t, hdots, h⟩ := Program.exec_bind_eq_ok h
  rcases dots with status | ⟨self, parent⟩
  · obtain rfl := Except.ok.inj (Prod.mk.inj h).1
    change status.statusCode.toInt32 ≠ _
    rw [statusCode_of_dots hdots]
    decide
  · obtain ⟨listed, t', _, h⟩ := Program.exec_bind_eq_ok h
    rcases listed with error | ents
    · dsimp only [Status.systemError] at h
      obtain ⟨status, _, hmake, h⟩ := Program.exec_bind_eq_ok h
      -- the text must not be computed to find the lemma's arguments
      have hcode : status.statusCode = .systemError := by
        with_reducible exact statusCode_of_exec hmake
      obtain rfl := Except.ok.inj (Prod.mk.inj h).1
      change status.statusCode.toInt32 ≠ _
      rw [hcode]
      decide
    · obtain rfl := Except.ok.inj (Prod.mk.inj h).1
      exact (StatusCode.toInt32_ne_zero .permissionError).symm

/-- The check is the one on the bit of the user class. -/
theorem passesCheck_iff (hread : (table.read ⟨req.id⟩).exec serve s = (.ok (.ok (some dir)), s')) :
    PassesCheck serve s fb table req ↔ HasPermission dir.acl ⟨req.uid, req.gid⟩ S_IRUSR := by
  constructor
  · intro hpasses
    by_contra hnot
    obtain ⟨error, hcheck, _⟩ := checkPermission_of_not hnot
    obtain ⟨status, hcode, hrefused⟩ : ∃ status : Status, status.statusCode = .permissionError ∧
        (runOn fb table req).exec serve s =
          (.ok { errorCode := status.statusCode.toInt32, errorMsg := status.msg }, s') := by
      rw [runOn, Program.exec_bind_ok hread]
      dsimp only
      rw [hcheck, Program.liftM_ok_bind]
      dsimp only [Status.permissionError]
      -- the message must not be computed to find the lemma's arguments
      with_reducible refine exec_status ?_ _
      exact getLast?_append_of_eq _ (by decide)
    exact hpasses _ _ hrefused (congrArg StatusCode.toInt32 hcode)
  · intro hpermission resp t h
    rw [runOn, Program.exec_bind_ok hread] at h
    obtain ⟨result, t', hresult, h⟩ := Program.exec_bind_eq_ok h
    obtain rfl : result = .ok () := by
      have hcheck := (Prod.mk.inj hresult).1
      rw [checkPermission_of_has hpermission] at hcheck
      exact (Except.ok.inj hcheck).symm
    exact errorCode_of_listing h

/-- Where the bit that is tested says the same as the read bit of the class that applies:
never for an owner who may read, for the group where the set-user-ID bit is as its read
bit, and for others where the read bit of the owner is as theirs. -/
def TestsRead (acl : Acl) (user : User) : Prop :=
  user.uid = 0 ∨
    acl.classOf user = .user ∧ ¬ acl.HasBits (modeBit .user .read) ∨
    acl.classOf user = .group ∧ (acl.HasBits S_ISUID ↔ acl.HasBits (modeBit .group .read)) ∨
    acl.classOf user = .others ∧
      (acl.HasBits (modeBit .user .read) ↔ acl.HasBits (modeBit .others .read))

instance (acl : Acl) (user : User) : Decidable (TestsRead acl user) :=
  inferInstanceAs (Decidable (_ ∨ _))

end ListDirOp

/-- `ListDir` lets through exactly the users to whom the documentation grants the read
permission when, and only when, the bit it tests happens to say the same as their read bit. -/
theorem listDir_permission_iff {σ : Type}
    {serve : σ → (op : ReadOp) → Except Crash op.Answer × σ} {s s' : σ} {fb : FlatBuffers}
    {table : DirTableBase} {req : ListDirRequest} {dir : Dir}
    (hread : (table.read ⟨req.id⟩).exec serve s = (.ok (.ok (some dir)), s'))
    (hperm : dir.acl.perm < 0x1000) :
    (ListDirOp.PassesCheck serve s fb table req ↔ dir.acl.Grants ⟨req.uid, req.gid⟩ .read) ↔
      ListDirOp.TestsRead dir.acl ⟨req.uid, req.gid⟩ := by
  rw [ListDirOp.passesCheck_iff hread, hasPermission_iff, Acl.Grants, ListDirOp.TestsRead]
  by_cases hroot : req.uid = 0
  · simp only [hroot, true_or]
  simp only [hroot, false_or]
  cases dir.acl.classOf ⟨req.uid, req.gid⟩ with
  | user =>
    -- the owner is always refused
    simp only [reduceCtorEq, true_and, false_and, or_false]
    exact iff_false_left (not_hasBits_of_lt hperm)
  | group =>
    simp only [reduceCtorEq, true_and, false_and, or_false, false_or]
    exact Iff.rfl
  | others =>
    simp only [reduceCtorEq, true_and, false_and, false_or]
    exact Iff.rfl

/-! A directory of user 5 and group 6, and the access of some users to it. -/

/-- A table that reads the row under every id, and writes as `KVDirTable` does. -/
def DirTableBase.always (dir : Dir) : DirTableBase :=
  ⟨fun _ => return .ok (some dir), KVDirTable.write .sample⟩

def sampleDir (perm : UInt64) : Dir := { rootDir with acl := ⟨5, 6, perm⟩ }

/-- Reads that are served by one database. -/
def serveReads (db : Database) (op : ReadOp) : Except Crash op.Answer × Database :=
  (answerOn db op, db)

theorem exec_always_read (dir : Dir) (id : InodeID) (db : Database) :
    ((DirTableBase.always dir).read id).exec serveReads db = (.ok (.ok (some dir)), db) := rfl

/-- Mode 0755, and a user who is neither the owner nor in the group. -/
theorem listDir_permission_others :
    ListDirOp.TestsRead (sampleDir 0x1ED).acl ⟨7, 8⟩ ∧
      (ListDirOp.PassesCheck serveReads .empty .sample (.always (sampleDir 0x1ED))
          ⟨1, [], 10, 7, 8⟩ ↔
        (sampleDir 0x1ED).acl.Grants ⟨7, 8⟩ .read) := by
  refine ⟨by decide, ?_⟩
  exact (listDir_permission_iff (exec_always_read _ _ _) (by decide)).mpr (by decide)

/-- The owner of a directory with mode 0700 is refused, and the others of one with mode
0400 are let through. -/
theorem listDir_refuses_owner :
    ((sampleDir 0x1C0).acl.Grants ⟨5, 6⟩ .read ∧
      ¬ ListDirOp.PassesCheck serveReads .empty .sample (.always (sampleDir 0x1C0))
        ⟨1, [], 10, 5, 6⟩) ∧
    ¬ (sampleDir 0x100).acl.Grants ⟨7, 8⟩ .read ∧
      ListDirOp.PassesCheck serveReads .empty .sample (.always (sampleDir 0x100))
        ⟨1, [], 10, 7, 8⟩ := by
  refine ⟨⟨by decide, ?_⟩, by decide, ?_⟩
  · rw [ListDirOp.passesCheck_iff (exec_always_read _ _ _)]
    decide
  · rw [ListDirOp.passesCheck_iff (exec_always_read _ _ _)]
    decide

namespace MkdirsOp

variable {σ : Type} {serve : σ → (op : Operation) → Except Crash op.Answer × σ} {s s' : σ}
  {table : DirTableBase} {req : MkdirsRequest} {dir : Dir}

/-- The handler does not answer with a `PermissionError`, however its calls are served. -/
def PassesCheck (serve : σ → (op : Operation) → Except Crash op.Answer × σ) (s : σ)
    (table : DirTableBase) (req : MkdirsRequest) : Prop :=
  ∀ resp s', (runOn table req).exec serve s = (.ok resp, s') →
    resp.errorCode ≠ StatusCode.permissionError.toInt32

theorem errorCode_of_create {resp : MkdirsResponse}
    (h : (create table req dir).exec serve s = (.ok resp, s')) : resp.errorCode = 0 := by
  rw [create] at h
  obtain ⟨id, _, _, h⟩ := Program.exec_bind_eq_ok h
  obtain ⟨nowNs, _, _, h⟩ := Program.exec_bind_eq_ok h
  obtain ⟨_, _, _, h⟩ := Program.exec_bind_eq_ok h
  obtain ⟨committed, _, _, h⟩ := Program.exec_bind_eq_ok h
  obtain rfl := Except.ok.inj (Prod.mk.inj h).1
  rfl

/-- The check is the one on the write bit alone. -/
theorem passesCheck_iff
    (hread : (table.read ⟨req.parentId⟩).lift.exec serve s = (.ok (.ok (some dir)), s')) :
    PassesCheck serve s table req ↔ HasPermission dir.acl ⟨req.uid, req.gid⟩ S_IWOTH := by
  constructor
  · intro hpasses
    by_contra hnot
    obtain ⟨error, hcheck, _⟩ := checkPermission_of_not hnot
    refine hpasses { errorCode := StatusCode.permissionError.toInt32 } s' ?_ rfl
    rw [runOn, Program.exec_bind_ok hread]
    dsimp only
    rw [hcheck, Program.liftM_ok_bind]
    rfl
  · -- behind the check every answer is a success
    intro hpermission resp t h
    rw [runOn, Program.exec_bind_ok hread] at h
    dsimp only at h
    rw [checkPermission_of_has hpermission, Program.liftM_ok_bind] at h
    rw [errorCode_of_create h]
    exact (StatusCode.toInt32_ne_zero .permissionError).symm

/-- The class that applies does not have the write bit without the execute bit. -/
def NoWriteWithoutExecute (acl : Acl) (user : User) : Prop :=
  user.uid = 0 ∨ ¬ acl.HasBits (modeBit (acl.classOf user) .write) ∨
    acl.HasBits (modeBit (acl.classOf user) .execute)

instance (acl : Acl) (user : User) : Decidable (NoWriteWithoutExecute acl user) :=
  inferInstanceAs (Decidable (_ ∨ _))

end MkdirsOp

/-- `Mkdirs` lets through exactly the users to whom the documentation grants the write and
the execute permission when, and only when, their class does not have the one without the
other. -/
theorem mkdirs_permission_iff {σ : Type}
    {serve : σ → (op : Operation) → Except Crash op.Answer × σ} {s s' : σ}
    {table : DirTableBase} {req : MkdirsRequest} {dir : Dir}
    (hread : (table.read ⟨req.parentId⟩).lift.exec serve s = (.ok (.ok (some dir)), s')) :
    (MkdirsOp.PassesCheck serve s table req ↔
        dir.acl.Grants ⟨req.uid, req.gid⟩ .write ∧ dir.acl.Grants ⟨req.uid, req.gid⟩ .execute) ↔
      MkdirsOp.NoWriteWithoutExecute dir.acl ⟨req.uid, req.gid⟩ := by
  rw [MkdirsOp.passesCheck_iff hread, hasPermission_iff, shift_write, Acl.Grants, Acl.Grants,
    MkdirsOp.NoWriteWithoutExecute]
  tauto

/-- A process that draws the id 2 at time 0, and whose storage does not fail. -/
def sampleEnv : Env := ⟨.ok ⟨2⟩, 0, fun _ => none⟩

/-- A request on an empty database. -/
def HandlerState.onEmpty : HandlerState := HandlerState.start (KVStore.openDb .empty)

theorem exec_always_read_lift (dir : Dir) (id : InodeID) (s : HandlerState) :
    ((DirTableBase.always dir).read id).lift.exec (handle sampleEnv) s =
      (.ok (.ok (some dir)), s) := rfl

/-- The answer of a `Mkdirs` to a user who is neither the owner nor in the group. -/
def answerToOthers (perm : UInt64) : Except Crash MkdirsResponse :=
  ((MkdirsOp.runOn (.always (sampleDir perm)) ⟨1, [0x61], 0x1ED, 7, 8⟩).exec (handle sampleEnv)
    HandlerState.onEmpty).1

/-- Mode 0733, and a user who is neither the owner nor in the group: the directory is
created. -/
theorem mkdirs_permission_others :
    MkdirsOp.NoWriteWithoutExecute (sampleDir 0x1DB).acl ⟨7, 8⟩ ∧
      (MkdirsOp.PassesCheck (handle sampleEnv) HandlerState.onEmpty (.always (sampleDir 0x1DB))
          ⟨1, [0x61], 0x1ED, 7, 8⟩ ↔
        (sampleDir 0x1DB).acl.Grants ⟨7, 8⟩ .write ∧
          (sampleDir 0x1DB).acl.Grants ⟨7, 8⟩ .execute) ∧
      (answerToOthers 0x1DB).map (fun resp => (resp.errorCode, resp.id)) = .ok (0, 2) := by
  refine ⟨by decide, ?_, rfl⟩
  exact (mkdirs_permission_iff (exec_always_read_lift _ _ _)).mpr (by decide)

/-- The others of a directory with mode 0702 may create entries in it without being allowed
to search it: the answer is a success. -/
theorem mkdirs_passes_without_execute :
    ¬ (sampleDir 0x1C2).acl.Grants ⟨7, 8⟩ .execute ∧
      MkdirsOp.PassesCheck (handle sampleEnv) HandlerState.onEmpty (.always (sampleDir 0x1C2))
        ⟨1, [0x61], 0x1ED, 7, 8⟩ ∧
      (answerToOthers 0x1C2).map (fun resp => (resp.errorCode, resp.id)) = .ok (0, 2) := by
  refine ⟨by decide, ?_, rfl⟩
  rw [MkdirsOp.passesCheck_iff (exec_always_read_lift _ _ _)]
  decide

end RocketFS
