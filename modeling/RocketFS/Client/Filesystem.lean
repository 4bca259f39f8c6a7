import RocketFS.Client.Handles
import RocketFS.Service.Completion
import RocketFS.Service.Linearizability
import RocketFS.Service.Listing

/-!
# The file system a mount shows

What the operations of the FUSE client do, said without databases, records or messages:
the state is the list of the directories created so far, and an operation replies from
it and may add one directory to it. The error numbers and the fields of the replies are
those of the code, with what it loses on the way. No access control list is stored, so
below the root nobody but the superuser passes a permission check, and what is read back
of a directory has neither owner nor mode. A lookup shows no times. A directory that
cannot be opened because it is missing gives `EIO`. A handle is opened on one page of the
directory, which is all that is ever read through it.

An operation whose request the namenode executes alone, and whose response the client
turns into a reply, is a step of this file system (`fsStep_of_namespaceStep`).

## Main definitions

* `dirOf` — what is read back of a directory
* `entryOf` — the directory a name stands for
* `firstCache` — what a directory is opened on
* `FsStep` — one operation of the file system

## Main results

* `ask_read_dirOf` — what the directory table reads
* `fsStep_of_namespaceStep` — request, response and reply together are one operation
-/

namespace RocketFS

/-! ### What is stored of a directory -/

/-- What is read back of a directory by its id. The root directory is made up, the others
have lost their access control list. -/
def dirOf (rows : List Dir) (id : UInt64) : Option Dir :=
  if id = kRootInodeID.val then some rootDir
  else (lastRow (fun dir => dir.id = ⟨id⟩) rows).map fun dir => { dir with acl := Acl.zero }

/-- The directory that was created last under a parent and a name. -/
def entryOf (rows : List Dir) (parentId : UInt64) (name : Bytes) : Option Dir :=
  lastRow (fun dir => dir.parentId = ⟨parentId⟩ ∧ dir.name = name) rows

/-- What is read back of a directory by its parent and name. -/
def Dir.asEntry (dir : Dir) : Dir := ⟨dir.parentId, dir.name, dir.id, Acl.zero, 0, 0, 0⟩

/-- Whom the permission checks let pass. -/
def MayUse (uid : UInt32) (id : UInt64) : Prop := uid = 0 ∨ id = kRootInodeID.val

instance (uid : UInt32) (id : UInt64) : Decidable (MayUse uid id) :=
  inferInstanceAs (Decidable (_ ∨ _))

/-- At most 100 of the entries of a directory, in the order of their names. -/
def firstEnts (rows : List Dir) (id : UInt64) : List DEnt :=
  ((childrenOf rows ⟨id⟩).take ListDirOp.listDirDefaultLimit).map fun child =>
    ListDirOp.dirDent child.id child.name

/-- What is listed first of a directory: itself, its parent, and its entries. -/
def firstPage (rows : List Dir) (id : UInt64) (dir : Dir) : List DEnt :=
  let parentId := if id = kRootInodeID.val then kRootInodeID else dir.parentId
  ListDirOp.dirDent ⟨id⟩ (ascii ".") :: ListDirOp.dirDent parentId (ascii "..") ::
    firstEnts rows id

/-- The cache of a handle on a directory. An empty directory is said to have more entries,
and one that has more than the page holds is said to have no more. -/
def firstCache (rows : List Dir) (id : UInt64) (dir : Dir) : CacheDirEntries :=
  ⟨0, 0, firstPage rows id dir, decide (childrenOf rows ⟨id⟩ = [])⟩

section Reads

variable {fb : FlatBuffers} {rows : List Dir} {id : UInt64} {dir : Dir}

theorem rowOfKey_eq_lastRow (rows : List Dir) (id : InodeID) :
    rowOfKey rows (InodeSerde.serKey id) = lastRow (fun dir => dir.id = id) rows := by
  simp only [rowOfKey, InodeSerde.serKey_inj, eq_comm]

/-- A directory stays what it is when one with another id is created. -/
theorem dirOf_snoc {new : Dir} (h : dirOf rows id = some dir) (hnew : ∀ r ∈ rows, r.id ≠ new.id) :
    dirOf (rows ++ [new]) id = some dir := by
  rw [dirOf] at h ⊢
  split_ifs at h ⊢ with hroot
  · exact h
  · -- the row that was found is not the new one
    rw [lastRow_snoc, if_neg]
    · exact h
    · obtain ⟨row, hrow, _⟩ := Option.map_eq_some_iff.mp h
      obtain ⟨hmem, hid⟩ := lastRow_mem hrow
      rw [decide_eq_true_eq] at hid ⊢
      exact fun heq => hnew row hmem (hid.trans heq.symm)

theorem rowOfEntry_eq_entryOf (rows : List Dir) (parentId : UInt64) (name : Bytes) :
    rowOfEntry rows (DEntSerde.serKey ⟨parentId⟩ name) = entryOf rows parentId name := by
  simp only [rowOfEntry, entryOf, DEntSerde.serKey_inj, eq_comm]

/-- A read of a row finds what `dirOf` says. -/
theorem ask_read_dirOf (hroot : kRootInodeID ∉ rows.map Dir.id)
    (hnames : ∀ dir ∈ rows, dir.name ≠ []) (id : UInt64) :
    ask (dbOf fb rows) (KVDirTable.read fb ⟨id⟩) = .ok (.ok (dirOf rows id)) := by
  -- what is not stored is made up for the root and missing otherwise
  cases hrow : rowOfKey rows (InodeSerde.serKey ⟨id⟩) with
  | some dir =>
    obtain ⟨hmem, hkey⟩ := rowOfKey_mem hrow
    have hid : id ≠ kRootInodeID.val := by
      rintro rfl
      have heq : kRootInodeID = dir.id := InodeSerde.serKey_inj.mp hkey
      exact hroot (heq ▸ List.mem_map_of_mem hmem)
    rw [ask_read_row hrow (hnames dir hmem), dirOf, if_neg hid, ← rowOfKey_eq_lastRow, hrow]
    rfl
  | none =>
    have hnone : (dbOf fb rows).get kInodeCFIndex (InodeSerde.serKey ⟨id⟩) = none := by
      rw [get_inode_dbOf, hrow, Option.map_none]
    rw [KVDirTable.ask_read_none hnone, dirOf, ← rowOfKey_eq_lastRow, hrow]
    by_cases hid : id = kRootInodeID.val
    · rw [if_pos (congrArg InodeID.mk hid), if_pos hid]
    · rw [if_neg (fun heq => hid (congrArg InodeID.val heq)), if_neg hid, Option.map_none]

/-- The permission checks of the operations ask for a bit that the made-up root has for
everybody, and that the access control lists read back have for nobody. -/
theorem hasPermission_dirOf (h : dirOf rows id = some dir) {perm : UInt64}
    (hperm : perm = S_IRUSR ∨ perm = S_IWOTH) (uid gid : UInt32) :
    HasPermission dir.acl ⟨uid, gid⟩ perm ↔ MayUse uid id := by
  by_cases huid : uid = 0
  · exact iff_of_true (hasPermission_of_uid_zero _ _ huid) (.inl huid)
  · rw [dirOf] at h
    split_ifs at h with hid
    · obtain rfl := Option.some.inj h
      refine iff_of_true ?_ (.inr hid)
      simp only [HasPermission, permNeeded, rootDir, huid, if_false]
      by_cases hgid : gid = 0 <;> rcases hperm with rfl | rfl <;>
        simp only [hgid, if_true, if_false] <;> decide
    · obtain ⟨row, _, rfl⟩ := Option.map_eq_some_iff.mp h
      refine iff_of_false ?_ (not_or.mpr ⟨huid, hid⟩)
      simp only [HasPermission, permNeeded, Acl.zero, huid, if_false]
      by_cases hgid : gid = 0 <;> rcases hperm with rfl | rfl <;>
        simp only [hgid, if_true, if_false] <;> decide

end Reads

/-! ### The operations -/

/-- The access control list of a new directory. The root hands on its group and its
set-group-ID bit; any other parent has lost its own. -/
def fsAcl (parentId : UInt64) (mode uid gid : UInt32) : Acl :=
  let perm := (mode ||| S_IFDIR.toUInt32).toUInt64 &&& ALLPERMS
  if parentId = kRootInodeID.val then ⟨uid, 0, perm ||| S_ISGID⟩ else ⟨uid, gid, perm⟩

/-- A new directory. -/
def fsDir (parentId : UInt64) (name : Bytes) (mode uid gid : UInt32) (id : InodeID)
    (now : Int64) : Dir :=
  ⟨⟨parentId⟩, cStr name, id, fsAcl parentId mode uid gid, now, now, now⟩

/-- One operation of the file system: what it replies, and the directories it leaves;
`opens` says on which caches the handles are opened. -/
inductive FsStep [Libfuse] (opts : FuseOptions) (opens : ℕ → CacheDirEntries → Prop)
    (rows : List Dir) : FuseOp → FuseReply → List Dir → Prop
  | found {parentId : UInt64} {name : Bytes} {dir : Dir}
      (h : entryOf rows parentId (cStr name) = some dir) :
      FsStep opts opens rows (.lookup parentId name)
        (.entry (toFuseEntryParam opts dir.id.val dir.asEntry.stat)) rows
  | notFound {parentId : UInt64} {name : Bytes}
      (h : entryOf rows parentId (cStr name) = none) :
      FsStep opts opens rows (.lookup parentId name) (.err ENOENT) rows
  | attr {id : UInt64} {dir : Dir} (h : dirOf rows id = some dir) :
      FsStep opts opens rows (.getAttr id) (.attr (toLinuxStat dir.stat) opts.attrTimeoutSec) rows
  | noAttr {id : UInt64} (h : dirOf rows id = none) :
      FsStep opts opens rows (.getAttr id) (.err ENOENT) rows
  | made {parentId : UInt64} {name : Bytes} {mode uid gid : UInt32} {parentDir : Dir}
      {id : InodeID} (now : Int64) (hparent : dirOf rows parentId = some parentDir)
      (hmay : MayUse uid parentId) (hnew : ∀ dir ∈ rows, dir.id ≠ id) (hroot : id ≠ kRootInodeID) :
      FsStep opts opens rows (.mkdir parentId name mode uid gid)
        (.entry (toFuseEntryParam opts id.val (fsDir parentId name mode uid gid id now).stat))
        (rows ++ [fsDir parentId name mode uid gid id now])
  | noParent {parentId : UInt64} {name : Bytes} {mode uid gid : UInt32}
      (h : dirOf rows parentId = none) :
      FsStep opts opens rows (.mkdir parentId name mode uid gid) (.err ENOENT) rows
  | notMade {parentId : UInt64} {name : Bytes} {mode uid gid : UInt32} {parentDir : Dir}
      (hparent : dirOf rows parentId = some parentDir) (hmay : ¬ MayUse uid parentId) :
      FsStep opts opens rows (.mkdir parentId name mode uid gid) (.err EACCES) rows
  | opened {id : UInt64} {uid gid : UInt32} {dir : Dir} (h : dirOf rows id = some dir)
      (hmay : MayUse uid id) (fh : ℕ)
      (hopens : ∀ cache, opens fh cache → cache = firstCache rows id dir) :
      FsStep opts opens rows (.openDir id uid gid) (.opened fh) rows
  | missing {id : UInt64} {uid gid : UInt32} (h : dirOf rows id = none) :
      FsStep opts opens rows (.openDir id uid gid) (.err EIO) rows
  | notOpened {id : UInt64} {uid gid : UInt32} {dir : Dir} (h : dirOf rows id = some dir)
      (hmay : ¬ MayUse uid id) : FsStep opts opens rows (.openDir id uid gid) (.err EACCES) rows
  /-- A `readdir` that asks for more asks for directory 0, always for its first entries. -/
  | noMore {id : UInt64} {size off fh : ℕ} {uid gid : UInt32}
      (h : dirOf rows 0 = none ∨ ¬ MayUse uid 0) :
      FsStep opts opens rows (.readDir id size off fh uid gid) (.err EIO) rows
  | more {id : UInt64} {size off fh : ℕ} {uid gid : UInt32} {dir : Dir}
      (h : dirOf rows 0 = some dir) (hmay : MayUse uid 0) (endOff : ℕ) :
      FsStep opts opens rows (.readDir id size off fh uid gid)
        (.buf (fillBuffer (firstEnts rows 0) endOff size)) rows

/-! ### The responses of the namenode -/

section Responses

variable {fb : FlatBuffers} {rows rows' : List Dir}

/-- A response that is made of a status carries its code. -/
theorem statusCode_of_ask {β : Type} {db : Database} {code : StatusCode} {msg : Bytes}
    {internal : Option Status} {location : SourceLocation} {f : Status → β} {b : β}
    (h : ask db (do return f (← Status.make code msg internal location)) = .ok b) :
    ∃ status, status.statusCode = code ∧ b = f status := by
  rw [ask_bind, ask_liftM] at h
  obtain ⟨status, hmake, hret⟩ := bind_ok h
  exact ⟨status, Status.statusCode_of_make hmake, (Except.ok.inj hret).symm⟩

/-- The rows a file system can have: the root is made up and not stored, all names are set
and valid, and every directory has a parent. -/
structure FsRows (rows : List Dir) : Prop where
  root : kRootInodeID ∉ rows.map Dir.id
  names : ∀ dir ∈ rows, dir.name ≠ [] ∧ validUtf8 dir.name
  parents : ∀ dir ∈ rows, ∃ parent, dirOf rows dir.parentId.val = some parent

theorem FsRows.name_ne_nil (h : FsRows rows) : ∀ dir ∈ rows, dir.name ≠ [] :=
  fun dir hdir => (h.names dir hdir).1

theorem FsRows.snoc {dir : Dir} (h : FsRows rows) (hroot : dir.id ≠ kRootInodeID)
    (hname : dir.name ≠ [] ∧ validUtf8 dir.name) (hnew : ∀ r ∈ rows, r.id ≠ dir.id)
    (hparent : ∃ parent, dirOf rows dir.parentId.val = some parent) : FsRows (rows ++ [dir]) where
  root := by
    rw [List.map_append, List.mem_append, List.map_singleton, List.mem_singleton]
    rintro (hold | hlast)
    · exact h.root hold
    · exact hroot hlast.symm
  names r hr := by
    rcases List.mem_append.mp hr with hold | hlast
    · exact h.names r hold
    · rw [List.mem_singleton.mp hlast]
      exact hname
  parents r hr := by
    rcases List.mem_append.mp hr with hold | hlast
    · obtain ⟨parent, hdir⟩ := h.parents r hold
      exact ⟨parent, dirOf_snoc hdir hnew⟩
    · obtain ⟨parent, hdir⟩ := hparent
      rw [List.mem_singleton.mp hlast]
      exact ⟨parent, dirOf_snoc hdir hnew⟩

theorem FsRows.ask_read (h : FsRows rows) (fb : FlatBuffers) (id : UInt64) :
    ask (dbOf fb rows) (KVDirTable.read fb ⟨id⟩) = .ok (.ok (dirOf rows id)) :=
  ask_read_dirOf h.root h.name_ne_nil id

/-- What `GetInode` answers. -/
theorem FsRows.getInode (h : FsRows rows) {id : UInt64} {resp : GetInodeResponse}
    (hask : ask (dbOf fb rows) (GetInodeOp.run fb ⟨some id⟩) = .ok resp) :
    (∃ dir, dirOf rows id = some dir ∧
        resp = { id := dir.id.val.toInt64, stat := some dir.stat }) ∨
      (dirOf rows id = none ∧ resp.errorCode = StatusCode.notFoundError.toInt32) := by
  have hread := h.ask_read fb id
  cases hdir : dirOf rows id with
  | some dir =>
    rw [hdir] at hread
    exact .inl ⟨dir, rfl, Except.ok.inj (hask.symm.trans (GetInodeOp.ask_run_dir hread))⟩
  | none =>
    rw [hdir] at hread
    rw [GetInodeOp.run, ask_bind] at hask
    change (ask (dbOf fb rows) (KVDirTable.read fb ⟨id⟩) >>= _) = _ at hask
    rw [hread] at hask
    dsimp only [ok_bind, Status.notFoundError] at hask
    with_reducible obtain ⟨status, hcode, rfl⟩ := statusCode_of_ask hask
    exact .inr ⟨rfl, congrArg StatusCode.toInt32 hcode⟩

/-- What `Lookup` answers. -/
theorem FsRows.lookup (h : FsRows rows) {parentId : UInt64} {name : Bytes} {resp : LookupResponse}
    (hask : ask (dbOf fb rows) (LookupOp.run fb ⟨parentId, name⟩) = .ok resp) :
    (∃ dir, entryOf rows parentId name = some dir ∧
        resp = { id := dir.id.val.toInt64, stat := some dir.asEntry.stat }) ∨
      (entryOf rows parentId name = none ∧ resp.errorCode = StatusCode.notFoundError.toInt32) := by
  have hrow := rowOfEntry_eq_entryOf rows parentId name
  cases hentry : entryOf rows parentId name with
  | some dir =>
    rw [hentry] at hrow
    have hname := h.name_ne_nil dir (rowOfEntry_mem hrow).1
    exact .inl ⟨dir, rfl, Except.ok.inj (hask.symm.trans (LookupOp.ask_run_dbOf hrow hname))⟩
  | none =>
    rw [hentry] at hrow
    have hnone : (dbOf fb rows).get kDEntCFIndex (DEntSerde.serKey ⟨parentId⟩ name) = none := by
      rw [get_dent_dbOf, hrow, Option.map_none]
    obtain ⟨msg, hanswer⟩ : ∃ msg, ask (dbOf fb rows) (LookupOp.run fb ⟨parentId, name⟩) =
        .ok { errorCode := StatusCode.notFoundError.toInt32, errorMsg := msg } :=
      LookupOp.ask_run_none hnone
    rw [Except.ok.inj (hask.symm.trans hanswer)]
    exact .inr ⟨rfl, rfl⟩

/-- What `ListDir` answers. -/
theorem FsRows.listDir (h : FsRows rows) {req : ListDirRequest} {resp : ListDirResponse}
    (hask : ask (dbOf fb rows) (ListDirOp.run fb req) = .ok resp) :
    (∃ dir, dirOf rows req.id = some dir ∧ MayUse req.uid req.id ∧ resp.errorCode = 0) ∨
      (dirOf rows req.id = none ∧ resp.errorCode = StatusCode.parentNotFoundError.toInt32) ∨
      (∃ dir, dirOf rows req.id = some dir ∧ ¬ MayUse req.uid req.id ∧
        resp.errorCode = StatusCode.permissionError.toInt32) := by
  have hread := h.ask_read fb req.id
  rw [ListDirOp.run, ListDirOp.runOn, KVDirTable.table_read, ask_bind, hread] at hask
  cases hdir : dirOf rows req.id with
  | none =>
    rw [hdir] at hask
    dsimp only [ok_bind, Status.parentNotFoundError] at hask
    with_reducible obtain ⟨status, hcode, rfl⟩ := statusCode_of_ask hask
    exact .inr (.inl ⟨rfl, congrArg StatusCode.toInt32 hcode⟩)
  | some dir =>
    rw [hdir] at hask hread
    dsimp only [ok_bind] at hask
    rw [ask_bind, ask_liftM] at hask
    have hmay := hasPermission_dirOf hdir (.inl rfl) req.uid req.gid
    by_cases hperm : HasPermission dir.acl ⟨req.uid, req.gid⟩ S_IRUSR
    · -- behind the check nothing can fail: the parent and the entries are readable
      refine .inl ⟨dir, rfl, hmay.mp hperm, ?_⟩
      rw [checkPermission_of_has hperm] at hask
      dsimp only [ok_bind] at hask
      obtain ⟨parentDir, hparent⟩ : ∃ parentDir, ask (dbOf fb rows)
          (KVDirTable.read fb dir.parentId) = .ok (.ok parentDir) := exists_ask_read h.name_ne_nil _
      obtain ⟨self, parent, hdots⟩ : ∃ self parent, ask (dbOf fb rows)
          (ListDirOp.dots (KVDirTable.table fb) req ⟨req.id⟩ dir) = .ok (.ok (self, parent)) :=
        ListDirOp.ask_dots hread (.inr ⟨dir, parentDir, hread, hparent⟩)
      obtain ⟨ents, hents⟩ : ∃ ents, ask (dbOf fb rows) (KVDEntView.list fb ⟨req.id⟩
          req.startAfter (ListDirOp.effectiveLimit req)) = .ok (.ok ents) :=
        exists_ask_list h.name_ne_nil _ _ _
      rw [ListDirOp.listing, ask_bind, hdots] at hask
      dsimp only [ok_bind] at hask
      rw [ask_bind, hents] at hask
      rw [← Except.ok.inj hask]
    · obtain ⟨error, hcheck, _⟩ := checkPermission_of_not hperm
      rw [hcheck] at hask
      dsimp only [ok_bind, Status.permissionError] at hask
      with_reducible obtain ⟨status, hcode, rfl⟩ := statusCode_of_ask hask
      exact .inr (.inr ⟨dir, rfl, mt hmay.mpr hperm, congrArg StatusCode.toInt32 hcode⟩)

/-- The entries of a directory itself and of its parent, which exists. -/
theorem FsRows.ask_dots (h : FsRows rows) (fb : FlatBuffers) {id : UInt64} {dir : Dir}
    (hdir : dirOf rows id = some dir) (uid gid : UInt32) :
    ask (dbOf fb rows)
        (ListDirOp.dots (KVDirTable.table fb) (FuseOpenDirOp.req id uid gid) ⟨id⟩ dir) =
      .ok (.ok (some (ListDirOp.dirDent ⟨id⟩ (ascii ".")), some (ListDirOp.dirDent
        (if id = kRootInodeID.val then kRootInodeID else dir.parentId) (ascii "..")))) := by
  have hparent : ask (dbOf fb rows) (ListDirOp.parentDent (KVDirTable.table fb) ⟨id⟩ dir) =
      .ok (.ok (some (ListDirOp.dirDent
        (if id = kRootInodeID.val then kRootInodeID else dir.parentId) (ascii "..")))) := by
    by_cases hroot : id = kRootInodeID.val
    · subst hroot
      rfl
    · -- the parent of a directory that was created is there
      have hne : (⟨id⟩ : InodeID) ≠ kRootInodeID := fun heq => hroot (congrArg InodeID.val heq)
      rw [dirOf, if_neg hroot] at hdir
      obtain ⟨row, hrow, rfl⟩ := Option.map_eq_some_iff.mp hdir
      obtain ⟨parent, hread⟩ := h.parents row (lastRow_mem hrow).1
      have hask := h.ask_read fb row.parentId.val
      rw [hread] at hask
      rw [ListDirOp.parentDent, if_neg hne, if_neg hroot, ask_bind, KVDirTable.table_read]
      rw [hask]
      rfl
  have hfirst : (FuseOpenDirOp.req id uid gid).startAfter.isEmpty = true := rfl
  rw [ListDirOp.dots, if_pos hfirst, ask_bind, hparent]
  rfl

/-- The entries in the response to a request that sets neither a start nor a limit. -/
theorem FsRows.ents_eq (h : FsRows rows) {req : ListDirRequest} {resp : ListDirResponse}
    (hask : ask (dbOf fb rows) (ListDirOp.run fb req) = .ok resp) (hcode : resp.errorCode = 0)
    (hstart : req.startAfter = []) (hlimit : req.limit = 0) :
    resp.ents = firstEnts rows req.id := by
  have hdefault : ListDirOp.effectiveLimit req = ListDirOp.listDirDefaultLimit := by
    rw [ListDirOp.effectiveLimit, hlimit]
    rfl
  rw [ListDirOp.page_of_success (lists_dbOf h.names) hask hcode, ListDirOp.page_first hstart,
    hdefault, ← List.map_take, List.map_map]
  rfl

/-- The page a directory is opened on. -/
theorem FsRows.onSuccess_eq (h : FsRows rows) {id : UInt64} {uid gid : UInt32} {dir : Dir}
    {resp : ListDirResponse}
    (hask : ask (dbOf fb rows) (ListDirOp.run fb (FuseOpenDirOp.req id uid gid)) = .ok resp)
    (hcode : resp.errorCode = 0) (hdir : dirOf rows id = some dir) :
    FuseOpenDirOp.onSuccess resp = firstCache rows id dir := by
  obtain ⟨dir', self, parent, ents, hread, hdots, hlist, rfl⟩ := ListDirOp.success_inv hask hcode
  obtain rfl : dir = dir' := by
    have heq := (h.ask_read fb id).symm.trans hread
    rw [hdir] at heq
    exact Option.some.inj (Except.ok.inj (Except.ok.inj heq))
  obtain ⟨rfl, rfl⟩ := Prod.mk.inj (Except.ok.inj (Except.ok.inj
    (hdots.symm.trans (h.ask_dots fb hdir uid gid))))
  have hents : ents.map ListDirOp.dent = firstEnts rows id :=
    h.ents_eq hask hcode rfl rfl
  -- the flag compares with the limit that was not set
  have hmore : ents.length = 0 ↔ childrenOf rows ⟨id⟩ = [] := by
    have hlength := congrArg List.length hents
    rw [firstEnts, List.length_map, List.length_map, List.length_take] at hlength
    rw [← List.length_eq_zero_iff, hlength, ListDirOp.listDirDefaultLimit]
    omega
  simp only [FuseOpenDirOp.onSuccess, firstCache, firstPage, DEnt.orDefault, Option.getD_some,
    hents, ← hmore]
  rfl

/-- The response to a `Mkdirs`: refused, or with the directory it has created. -/
theorem FsRows.mkdirs (h : FsRows rows) {req : MkdirsRequest} {resp : Response}
    (hstep : NamespaceStep fb rows (.mkdirs req) resp rows') :
    (rows' = rows ∧ ∃ r, resp = .mkdirs r ∧
        ((dirOf rows req.parentId = none ∧
            r.errorCode = StatusCode.parentNotFoundError.toInt32) ∨
          (∃ dir, dirOf rows req.parentId = some dir ∧ ¬ MayUse req.uid req.parentId ∧
            r.errorCode = StatusCode.permissionError.toInt32))) ∨
      ∃ dir id now, dirOf rows req.parentId = some dir ∧ MayUse req.uid req.parentId ∧
        (∀ r ∈ rows, r.id ≠ id) ∧ id ≠ kRootInodeID ∧
        resp = .mkdirs (MkdirsOp.success (MkdirsOp.newDir req dir id now)) ∧
        rows' = rows ++ [MkdirsOp.newDir req dir id now] := by
  have hread := h.ask_read fb req.parentId
  cases hstep with
  | settled hsettled =>
    refine .inl ⟨rfl, ?_⟩
    rw [Request.settled, hread] at hsettled
    dsimp only at hsettled
    cases hdir : dirOf rows req.parentId with
    | none =>
      rw [hdir] at hsettled
      exact ⟨_, (Except.ok.inj (Option.some.inj hsettled)).symm, .inl ⟨rfl, rfl⟩⟩
    | some dir =>
      rw [hdir] at hsettled
      simp only [MkdirsOp.verdict] at hsettled
      have hmay := hasPermission_dirOf hdir (.inr rfl) req.uid req.gid
      split_ifs at hsettled with hperm
      exact ⟨_, (Except.ok.inj (Option.some.inj hsettled)).symm,
        .inr ⟨dir, rfl, mt hmay.mpr hperm, rfl⟩⟩
  | @created _ parentDir id now hcreates hnew hroot =>
    -- the parent that was read is the one the rows have
    obtain ⟨hparent, hperm⟩ := hcreates
    have hdir : dirOf rows req.parentId = some parentDir :=
      Except.ok.inj (Except.ok.inj (hread.symm.trans hparent))
    exact .inr ⟨parentDir, id, now, hdir,
      (hasPermission_dirOf hdir (.inr rfl) req.uid req.gid).mp hperm, hnew, hroot, rfl, rfl⟩

/-- A request that only reads changes nothing. -/
theorem NamespaceStep.of_reads {req : Request} {resp : Response}
    (hstep : NamespaceStep fb rows req resp rows') (hreads : req.reads) :
    rows' = rows ∧ req.settled fb (dbOf fb rows) = some (.ok resp) := by
  cases hstep with
  | settled hsettled => exact ⟨rfl, hsettled⟩
  | created => cases hreads

/-- A request whose name is set and valid leaves such rows behind. -/
theorem FsRows.of_step (h : FsRows rows) {req : Request} {resp : Response}
    (hstep : NamespaceStep fb rows req resp rows')
    (hname : ∀ r, req = .mkdirs r → r.name ≠ [] ∧ validUtf8 r.name) : FsRows rows' := by
  cases hstep with
  | settled _ => exact h
  | @created r parentDir id now hcreates hnew hroot =>
    have hdir : dirOf rows r.parentId = some parentDir :=
      Except.ok.inj (Except.ok.inj ((h.ask_read fb r.parentId).symm.trans hcreates.1))
    exact h.snoc hroot (hname r rfl) hnew ⟨parentDir, hdir⟩

end Responses

/-! ### The replies of the client -/

/-- What is created is what the file system says: the group and the bit of the root are
handed on, those of any other parent are not there any more. -/
theorem newDir_eq_fsDir {rows : List Dir} {parentId : UInt64} {parentDir : Dir}
    (h : dirOf rows parentId = some parentDir) (name : Bytes) (mode uid gid : UInt32)
    (id : InodeID) (now : Int64) :
    MkdirsOp.newDir ⟨parentId, cStr name, (mode ||| S_IFDIR.toUInt32).toUInt64, uid, gid⟩
      parentDir id now = fsDir parentId name mode uid gid id now := by
  have hacl : MkdirsOp.newAcl ⟨parentId, cStr name, (mode ||| S_IFDIR.toUInt32).toUInt64, uid, gid⟩
      parentDir = fsAcl parentId mode uid gid := by
    rw [dirOf] at h
    split_ifs at h with hid
    · obtain rfl := Option.some.inj h
      rw [MkdirsOp.newAcl, if_pos (by decide), fsAcl, if_pos hid]
      rfl
    · obtain ⟨row, _, rfl⟩ := Option.map_eq_some_iff.mp h
      have hperm : ¬ (Acl.zero.perm &&& S_ISGID ≠ 0) := by decide
      rw [MkdirsOp.newAcl, if_neg hperm, fsAcl, if_neg hid]
  rw [MkdirsOp.newDir, hacl]
  rfl

section Replies

variable [Libfuse] {opts : FuseOptions} {opens : ℕ → CacheDirEntries → Prop} {fb : FlatBuffers}
  {rows rows' : List Dir} {handles handles' : Handles} {op : FuseOp} {resp : Response}
  {reply : FuseReply}

/-- An error code goes to the kernel as an error number. -/
theorem reply_of_error {code : StatusCode}
    (h : op.finish opts handles (.response resp) = some (.ok (handles', .answer resp reply)))
    (hcode : resp.errorCode = code.toInt32) :
    reply = .err ((op.toErrno code.toInt16).getD EIO) := by
  have hstatus : toStatusCode resp.errorCode = code.toInt16 := by
    rw [hcode]
    cases code <;> rfl
  rw [FuseOp.finish_of_error (hcode ▸ code.toInt32_ne_zero), hstatus] at h
  have hpair := Prod.mk.inj (Except.ok.inj (Option.some.inj h))
  exact (Returned.answer_inj.mp hpair.2).symm

/-- A success goes to the kernel as `OnSuccess` says. -/
theorem reply_of_success {reply₁ : FuseReply} {handles₁ : Handles}
    (h : op.finish opts handles (.response resp) = some (.ok (handles', .answer resp reply)))
    (hcode : resp.errorCode = 0)
    (hsuccess : op.onSuccess opts handles resp = some (.ok (handles₁, reply₁))) :
    reply = reply₁ := by
  have heq := (FuseOp.onSuccess_of_finish hcode h).symm.trans hsuccess
  exact (Prod.mk.inj (Except.ok.inj (Option.some.inj heq))).2

/-- A `readdir` that got a page replies with entries of it. -/
theorem reply_of_readDir {id : UInt64} {size off fh : ℕ} {uid gid : UInt32}
    {page : ListDirResponse} (hcode : page.errorCode = 0)
    (h : (FuseOp.readDir id size off fh uid gid).finish opts handles (.response (.listDir page)) =
      some (.ok (handles', .answer (.listDir page) reply))) :
    ∃ endOff, reply = .buf (fillBuffer page.ents endOff size) := by
  have hzero : (Response.listDir page).errorCode = 0 := hcode
  have hsuccess := FuseOp.onSuccess_of_finish hzero h
  obtain ⟨cache, _, hcache⟩ := Option.map_eq_some_iff.mp hsuccess
  obtain ⟨⟨reply₁, cache'⟩, hrun, hpair⟩ := map_ok hcache
  obtain ⟨_, hoff, rfl, rfl⟩ := FuseReadDirOp.onSuccess_inv hrun
  obtain ⟨_, rfl⟩ := Prod.mk.inj hpair
  refine ⟨cache.endOff, congrArg FuseReply.buf ?_⟩
  rw [CacheDirEntries.populate_fst, CacheDirEntries.remaining]
  dsimp only
  rw [hoff, Nat.sub_self, List.drop_zero]

/-- A request that is executed alone, and the reply its response is turned into, are one
operation of the file system. -/
theorem fsStep_of_namespaceStep (h : FsRows rows)
    (hstep : NamespaceStep fb rows op.req resp rows')
    (hreply : op.finish opts handles (.response resp) = some (.ok (handles', .answer resp reply)))
    (hopens : ∀ fh cache page, reply = .opened fh → resp = .listDir page → opens fh cache →
      cache = FuseOpenDirOp.onSuccess page) :
    FsStep opts opens rows op reply rows' := by
  cases op with
  | lookup parentId name =>
    obtain ⟨rfl, hsettled⟩ := hstep.of_reads rfl
    obtain ⟨r, hask, rfl⟩ := map_ok (Option.some.inj hsettled)
    rcases h.lookup hask with ⟨dir, hentry, rfl⟩ | ⟨hentry, hcode⟩
    · obtain rfl := reply_of_success hreply rfl rfl
      exact .found hentry
    · obtain rfl := reply_of_error hreply hcode
      exact .notFound hentry
  | getAttr id =>
    obtain ⟨rfl, hsettled⟩ := hstep.of_reads rfl
    obtain ⟨r, hask, rfl⟩ := map_ok (Option.some.inj hsettled)
    rcases h.getInode hask with ⟨dir, hdir, rfl⟩ | ⟨hdir, hcode⟩
    · obtain rfl := reply_of_success hreply rfl rfl
      exact .attr hdir
    · obtain rfl := reply_of_error hreply hcode
      exact .noAttr hdir
  | mkdir parentId name mode uid gid =>
    rcases h.mkdirs hstep with ⟨rfl, r, rfl, hrefused⟩ |
      ⟨dir, id, now, hdir, hmay, hnew, hroot, rfl, rfl⟩
    · rcases hrefused with ⟨hdir, hcode⟩ | ⟨dir, hdir, hmay, hcode⟩
      · obtain rfl := reply_of_error hreply hcode
        exact .noParent hdir
      · obtain rfl := reply_of_error hreply hcode
        exact .notMade hdir hmay
    · obtain rfl := reply_of_success hreply rfl rfl
      rw [newDir_eq_fsDir hdir]
      exact .made now hdir hmay hnew hroot
  | openDir id uid gid =>
    obtain ⟨rfl, hsettled⟩ := hstep.of_reads rfl
    obtain ⟨r, hask, rfl⟩ := map_ok (Option.some.inj hsettled)
    rcases h.listDir hask with ⟨dir, hdir, hmay, hcode⟩ | ⟨hdir, hcode⟩ | ⟨dir, hdir, hmay, hcode⟩
    · obtain rfl := reply_of_success hreply hcode rfl
      refine .opened hdir hmay _ fun cache hcache => ?_
      rw [hopens _ cache r rfl rfl hcache]
      exact h.onSuccess_eq hask hcode hdir
    · obtain rfl := reply_of_error hreply hcode
      exact .missing hdir
    · obtain rfl := reply_of_error hreply hcode
      exact .notOpened hdir hmay
  | readDir id size off fh uid gid =>
    obtain ⟨rfl, hsettled⟩ := hstep.of_reads rfl
    obtain ⟨r, hask, rfl⟩ := map_ok (Option.some.inj hsettled)
    rcases h.listDir hask with ⟨dir, hdir, hmay, hcode⟩ | ⟨hdir, hcode⟩ | ⟨dir, hdir, hmay, hcode⟩
    · obtain ⟨endOff, rfl⟩ := reply_of_readDir hcode hreply
      rw [h.ents_eq hask hcode rfl rfl]
      exact .more hdir hmay endOff
    · obtain rfl := reply_of_error hreply hcode
      exact .noMore (.inl hdir)
    · obtain rfl := reply_of_error hreply hcode
      exact .noMore (.inr hmay)

/-- A response can be turned into a reply, with some handles of which any may be the next. -/
theorem exists_finish (opts : FuseOptions) (nextFh : ℕ) (h : FsRows rows)
    (hstep : NamespaceStep fb rows op.req resp rows') :
    ∃ handles handles' reply,
      op.finish opts handles (.response resp) = some (.ok (handles', .answer resp reply)) ∧
      ∀ fh, reply = .opened fh → fh = nextFh := by
  -- handles that have nothing cached
  refine ⟨⟨fun _ => some ⟨0, 0, [], true⟩, nextFh⟩, ?_⟩
  by_cases hcode : resp.errorCode = 0
  · simp only [FuseOp.finish_of_success hcode]
    cases op with
    | lookup parentId name =>
      obtain ⟨r, _, rfl⟩ := map_ok (Option.some.inj (hstep.of_reads rfl).2)
      exact ⟨_, _, rfl, by simp⟩
    | getAttr id =>
      obtain ⟨r, _, rfl⟩ := map_ok (Option.some.inj (hstep.of_reads rfl).2)
      exact ⟨_, _, rfl, by simp⟩
    | mkdir parentId name mode uid gid =>
      rcases h.mkdirs hstep with ⟨_, r, rfl, _⟩ | ⟨dir, id, now, _, _, _, _, rfl, _⟩ <;>
        exact ⟨_, _, rfl, by simp⟩
    | openDir id uid gid =>
      obtain ⟨r, _, rfl⟩ := map_ok (Option.some.inj (hstep.of_reads rfl).2)
      exact ⟨_, _, rfl, fun fh heq => (FuseReply.opened.inj heq).symm⟩
    | readDir id size off fh uid gid =>
      obtain ⟨r, _, rfl⟩ := map_ok (Option.some.inj (hstep.of_reads rfl).2)
      have hzero : r.errorCode = 0 := hcode
      simp only [FuseOp.onSuccess, FuseReadDirOp.onSuccess, hzero, decide_true, check_true,
        ok_bind]
      exact ⟨_, _, rfl, by simp⟩
  · rw [FuseOp.finish_of_error hcode]
    exact ⟨_, _, rfl, by simp⟩

end Replies

end RocketFS
