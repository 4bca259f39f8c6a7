import RocketFS.Client.Mount

/-!
# What the users of a mount can rely on

Consequences of `mount_linearizable` for the operations of the kernel. A directory whose
`mkdir` has been replied to is seen by every later `getattr` and `lookup`, but not as it
was created: its permission bits, owner and group are gone, and a `lookup` shows no times
either. Whether `mkdir` and `opendir` are allowed does not depend on any mode: users other
than the superuser may do both in the root directory and nowhere else. The error numbers
are few: none of them tells that a name is taken, and a directory that is missing is an
I/O error to `opendir`. A directory that is read shows the first page of what it was when
it was opened. As in `RocketFS.Client.Mount`, the `fuse_file_info` of an `opendir` is taken
to be there until the reply to it.

## Main results

* `getAttr_after_mkdir`, `lookup_after_mkdir` — a directory after its creation
* `unprivileged_iff_root` — where an unprivileged user may create and open directories
* `reply_errno` — the error numbers of the operations
* `mount_stream` — what is read of a directory
-/

namespace RocketFS

/-! ### Directories stay -/

/-- The directory created last under a parent and a name. -/
theorem entryOf_snoc (rows : List Dir) (dir : Dir) (parentId : UInt64) (name : Bytes) :
    entryOf (rows ++ [dir]) parentId name =
      if dir.parentId = ⟨parentId⟩ ∧ dir.name = name then some dir
      else entryOf rows parentId name := by
  simp only [entryOf, lastRow_snoc, decide_eq_true_eq]

/-- A directory that is read back is one that was created, unless it is the root. -/
theorem mem_of_dirOf {rows : List Dir} {id : UInt64} {dir : Dir}
    (h : dirOf rows id = some dir)
    (hid : id ≠ kRootInodeID.val) : ∃ row ∈ rows, row.id = ⟨id⟩ := by
  rw [dirOf, if_neg hid] at h
  obtain ⟨row, hrow, _⟩ := Option.map_eq_some_iff.mp h
  obtain ⟨hmem, heq⟩ := lastRow_mem hrow
  exact ⟨row, hmem, of_decide_eq_true heq⟩

section Kept

variable [Libfuse] {opts : FuseOptions} {opens : ℕ → CacheDirEntries → Prop} {rows rows' : List Dir}
  {op : FuseOp} {reply : FuseReply}

/-- An operation leaves the directories as they are, or is a `mkdir` that adds one. -/
theorem FsStep.rows_cases (h : FsStep opts opens rows op reply rows') :
    rows' = rows ∨ ∃ parentId name mode uid gid id now,
      op = .mkdir parentId name mode uid gid ∧ (∀ dir ∈ rows, dir.id ≠ id) ∧
      rows' = rows ++ [fsDir parentId name mode uid gid id now] := by
  cases h with
  | made now _ _ hnew _ => exact .inr ⟨_, _, _, _, _, _, now, rfl, hnew, rfl⟩
  | _ => exact .inl rfl

/-- What is read back of a directory stays the same. -/
theorem FsStep.dirOf_kept (h : FsStep opts opens rows op reply rows') {id : UInt64} {dir : Dir}
    (hdir : dirOf rows id = some dir) : dirOf rows' id = some dir := by
  rcases h.rows_cases with rfl | ⟨parentId, name, mode, uid, gid, new, now, _, hnew, rfl⟩
  · exact hdir
  · exact dirOf_snoc hdir hnew

/-- What a name stands for stays the same until another directory is created under it. -/
theorem FsStep.entryOf_cases (h : FsStep opts opens rows op reply rows') (parentId : UInt64)
    (name : Bytes) : entryOf rows' parentId name = entryOf rows parentId name ∨
      ((entryOf rows' parentId name).isSome ∧ ∃ name' mode uid gid,
        op = .mkdir parentId name' mode uid gid ∧ cStr name' = name) := by
  rcases h.rows_cases with rfl | ⟨parentId', name', mode, uid, gid, new, now, rfl, _, rfl⟩
  · exact .inl rfl
  · rw [entryOf_snoc]
    split_ifs with hplace
    · obtain ⟨hparent, hname⟩ := hplace
      obtain rfl : parentId' = parentId := InodeID.mk.inj hparent
      exact .inr ⟨rfl, name', mode, uid, gid, rfl, hname⟩
    · exact .inl rfl

end Kept

/-! ### After a `mkdir` -/

/-- The attributes of a directory that has lost its access control list. -/
theorem toLinuxStat_acl_zero (dir : Dir) :
    toLinuxStat { dir with acl := Acl.zero }.stat = { toLinuxStat dir.stat with
      stMode := S_IFDIR.toUInt32, stUid := 0, stGid := 0 } := by
  have hmode : S_IFDIR ||| Acl.zero.perm = S_IFDIR := by decide
  simp only [toLinuxStat, Dir.stat, hmode]
  rfl

/-- The attributes of a directory that is found by its name. -/
theorem toLinuxStat_asEntry (dir : Dir) :
    toLinuxStat dir.asEntry.stat = { toLinuxStat dir.stat with
      stMode := S_IFDIR.toUInt32, stUid := 0, stGid := 0, stAtime := 0, stMtime := 0,
      stCtime := 0 } := by
  have hmode : S_IFDIR ||| Acl.zero.perm = S_IFDIR := by decide
  have htime : (0 : Int64) / kSecToNs = 0 := by decide
  simp only [toLinuxStat, Dir.stat, Dir.asEntry, hmode, htime]
  rfl

section AfterMkdir

variable {opts : FuseOptions} {fb : FlatBuffers} {s : MountState} {trace : MountTrace}
  {t u : FuseReq} {parentId : UInt64} {name : Bytes} {mode uid gid : UInt32}
  {entry : FuseEntryParam} {reply : FuseReply}

/-- The operation of a request is the one it was started with. -/
theorem invoke_unique [Libfuse] (h : Run (mountStep opts fb) MountState.init trace s)
    {op op' : FuseOp} (hop : .invoke t op ∈ mountHistory trace)
    (hop' : .invoke t op' ∈ mountHistory trace) : op = op' := by
  have hinv := mountInv_run h
  exact Option.some.inj (((hinv.invoked t op).mp hop).symm.trans ((hinv.invoked t op').mp hop'))

/-- What a `mkdir` that was replied to has done. -/
theorem FsStep.made_inv [Libfuse] {opens : ℕ → CacheDirEntries → Prop} {rows rows' : List Dir}
    (h : FsStep opts opens rows (.mkdir parentId name mode uid gid) (.entry entry) rows') :
    ∃ id now, id ≠ kRootInodeID ∧ rows' = rows ++ [fsDir parentId name mode uid gid id now] ∧
      entry = toFuseEntryParam opts id.val (fsDir parentId name mode uid gid id now).stat := by
  cases h with
  | made now _ _ _ hroot => exact ⟨_, now, hroot, rfl, rfl⟩

/-- A `getattr` that is started after a `mkdir` has been replied to shows the directory with
the attributes of that reply, except that the permission bits, the owner and the group are
gone. -/
theorem getAttr_after_mkdir [Libfuse] (h : Run (mountStep opts fb) MountState.init trace s)
    (hundisturbed : Undisturbed trace)
    (hmkdir : .invoke t (.mkdir parentId name mode uid gid) ∈ mountHistory trace)
    (hpair : [.respond t (.entry entry), .invoke u (.getAttr entry.ino)].Sublist
      (mountHistory trace))
    (hreply : .respond u reply ∈ mountHistory trace) :
    reply = .attr { entry.attr with stMode := S_IFDIR.toUInt32, stUid := 0, stGid := 0 }
      opts.attrTimeoutSec := by
  obtain ⟨order, rows, _, hlin⟩ := mountOrder_run h hundisturbed
  obtain ⟨before, between, after, e, e', rows₁, rows₂, rows₃, rows₄, rfl, rfl, houtput, rfl,
    rfl, _, hmade, hbetween, hstep⟩ := hlin.exists_steps hpair hreply
  -- the two operations of the order are the ones of the history
  have hinput : e.input = .mkdir parentId name mode uid gid :=
    invoke_unique h (hlin.invoked e (by simp)) hmkdir
  have hinput' : e'.input = .getAttr entry.ino :=
    invoke_unique h (hlin.invoked e' (by simp))
      (hpair.subset (List.mem_cons_of_mem _ List.mem_cons_self))
  rw [hinput, houtput] at hmade
  rw [hinput'] at hstep
  obtain ⟨id, now, hroot, rfl, rfl⟩ := hmade.made_inv
  -- the directory is there after the `mkdir`, and from then on
  have hdir : dirOf (rows₁ ++ [fsDir parentId name mode uid gid id now]) id.val =
      some { fsDir parentId name mode uid gid id now with acl := Acl.zero } := by
    have hval : id.val ≠ kRootInodeID.val := fun heq => hroot (congrArg InodeID.mk heq)
    rw [dirOf, if_neg hval, lastRow_snoc, if_pos (by simp [fsDir])]
    rfl
  have hkept : dirOf rows₃ id.val =
      some { fsDir parentId name mode uid gid id now with acl := Acl.zero } :=
    hbetween.invariant (P := fun rows => dirOf rows id.val = _) hdir
      fun e _ rows rows' hbefore hs => hs.dirOf_kept hbefore
  generalize hout : e'.output = reply at hstep
  cases hstep with
  | attr hfound =>
    obtain rfl := Option.some.inj (hkept.symm.trans hfound)
    rw [toLinuxStat_acl_zero]
    rfl
  | noAttr hmissing => cases hkept.symm.trans hmissing

section Sample

open scoped Sample

theorem mkdir_mem_createThenRead : .invoke 0 (.mkdir 1 (ascii "a") 0x1ED 1000 1000) ∈
    mountHistory createThenReadTrace := by
  rw [mountHistory_createThenRead]
  decide

/-- The creator is shown the mode `drwxr-sr-x`, and then there is none. -/
theorem getAttr_after_mkdir_createThenRead :
    createThenReadEntry.attr.stMode = 0x45ED ∧
      ∀ reply, .respond 2 reply ∈ createThenReadHistory → reply =
        .attr { createThenReadEntry.attr with stMode := 0x4000, stUid := 0, stGid := 0 } 0 := by
  obtain ⟨s, hrun⟩ := exists_run_createThenRead
  refine ⟨by decide, fun reply hreply => ?_⟩
  rw [← mountHistory_createThenRead] at hreply
  have hpair : [.respond 0 (.entry createThenReadEntry), .invoke 2 (.getAttr 2)].Sublist
      (mountHistory createThenReadTrace) := by
    rw [mountHistory_createThenRead]
    decide
  exact getAttr_after_mkdir hrun undisturbed_createThenRead mkdir_mem_createThenRead hpair hreply

end Sample

/-- A `lookup` that is started after a `mkdir` of the same parent and name has been replied
to finds a directory. It is the one created by this `mkdir` if there was no other, shown
without permission bits, owner, group and times. -/
theorem lookup_after_mkdir [Libfuse] (h : Run (mountStep opts fb) MountState.init trace s)
    (hundisturbed : Undisturbed trace)
    (hmkdir : .invoke t (.mkdir parentId name mode uid gid) ∈ mountHistory trace)
    (hpair : [.respond t (.entry entry), .invoke u (.lookup parentId name)].Sublist
      (mountHistory trace))
    (hreply : .respond u reply ∈ mountHistory trace) :
    (∃ found, reply = .entry found) ∧
      ((∀ v name' mode' uid' gid', .invoke v (.mkdir parentId name' mode' uid' gid') ∈
          mountHistory trace → cStr name' = cStr name → v = t) →
        reply = .entry { entry with attr := { entry.attr with
          stMode := S_IFDIR.toUInt32, stUid := 0, stGid := 0, stAtime := 0, stMtime := 0,
          stCtime := 0 } }) := by
  obtain ⟨order, rows, _, hlin⟩ := mountOrder_run h hundisturbed
  obtain ⟨before, between, after, e, e', rows₁, rows₂, rows₃, rows₄, rfl, rfl, houtput, rfl,
    rfl, _, hmade, hbetween, hstep⟩ := hlin.exists_steps hpair hreply
  -- the two operations of the order are the ones of the history
  have hinput : e.input = .mkdir parentId name mode uid gid :=
    invoke_unique h (hlin.invoked e (by simp)) hmkdir
  have hinput' : e'.input = .lookup parentId name :=
    invoke_unique h (hlin.invoked e' (by simp))
      (hpair.subset (List.mem_cons_of_mem _ List.mem_cons_self))
  rw [hinput, houtput] at hmade
  rw [hinput'] at hstep
  obtain ⟨id, now, _, rfl, rfl⟩ := hmade.made_inv
  have hentry : entryOf (rows₁ ++ [fsDir parentId name mode uid gid id now]) parentId
      (cStr name) = some (fsDir parentId name mode uid gid id now) := by
    rw [entryOf_snoc, if_pos ⟨rfl, rfl⟩]
  generalize hout : e'.output = reply at hstep
  refine ⟨?_, fun honly => ?_⟩
  · -- from then on the name stands for a directory, if not for this one
    have hsome : (entryOf rows₃ parentId (cStr name)).isSome := by
      refine hbetween.invariant (P := fun rows => (entryOf rows parentId (cStr name)).isSome)
        (by rw [hentry]; rfl) fun e _ rows rows' hbefore hs => ?_
      rcases hs.entryOf_cases parentId (cStr name) with hsame | ⟨hnew, _⟩
      · rwa [hsame]
      · exact hnew
    cases hstep with
    | found _ => exact ⟨_, rfl⟩
    | notFound hmissing =>
      rw [hmissing] at hsome
      cases hsome
  · have hkept : entryOf rows₃ parentId (cStr name) =
        some (fsDir parentId name mode uid gid id now) := by
      refine hbetween.invariant (P := fun rows => entryOf rows parentId (cStr name) = _) hentry
        fun e₁ he₁ rows rows' hbefore hs => ?_
      rcases hs.entryOf_cases parentId (cStr name) with hsame | ⟨_, name', _, _, _, hop, hname⟩
      · rw [hsame]
        exact hbefore
      · -- another `mkdir` of the name would have to be this one
        have hmem : e₁ ∈ before ++ e :: (between ++ e' :: after) := by simp [he₁]
        have hinvoked := hlin.invoked e₁ hmem
        rw [hop] at hinvoked
        have heq : e₁.op = e.op := honly e₁.op name' _ _ _ hinvoked hname
        have hnodup := hlin.nodup
        rw [List.map_append, List.map_cons] at hnodup
        have hnot := (List.nodup_cons.mp (List.nodup_append.mp hnodup).2.1).1
        exact absurd (heq ▸ List.mem_map_of_mem (List.mem_append_left _ he₁)) hnot
    cases hstep with
    | found hfound =>
      obtain rfl := Option.some.inj (hkept.symm.trans hfound)
      rw [toFuseEntryParam, toLinuxStat_asEntry]
      rfl
    | notFound hmissing => cases hkept.symm.trans hmissing

section Sample

open scoped Sample

/-- The second lookup finds the directory, which has lost its mode, its owner and its times. -/
theorem lookup_after_mkdir_createThenRead :
    createThenReadEntry.attr.stMtime = 5 ∧
      ∀ reply, .respond 3 reply ∈ createThenReadHistory → reply =
        .entry { createThenReadEntry with attr := { createThenReadEntry.attr with
          stMode := 0x4000, stUid := 0, stGid := 0, stAtime := 0, stMtime := 0,
          stCtime := 0 } } := by
  obtain ⟨s, hrun⟩ := exists_run_createThenRead
  refine ⟨by decide, fun reply hreply => ?_⟩
  rw [← mountHistory_createThenRead] at hreply
  have hpair : [.respond 0 (.entry createThenReadEntry),
      .invoke 3 (.lookup 1 (ascii "a"))].Sublist (mountHistory createThenReadTrace) := by
    rw [mountHistory_createThenRead]
    decide
  have honly : ∀ v name' mode' uid' gid', .invoke v (.mkdir 1 name' mode' uid' gid') ∈
      mountHistory createThenReadTrace → cStr name' = cStr (ascii "a") → v = 0 := by
    intro v name' mode' uid' gid' hinvoke _
    rw [mountHistory_createThenRead] at hinvoke
    simp only [createThenReadHistory, List.mem_cons, Visible.invoke.injEq, FuseOp.mkdir.injEq,
      reduceCtorEq, and_false, or_false, List.not_mem_nil] at hinvoke
    exact hinvoke.1
  exact (lookup_after_mkdir hrun undisturbed_createThenRead mkdir_mem_createThenRead hpair
    hreply).2 honly

end Sample

end AfterMkdir

/-! ### Permissions and error numbers -/

/-- The directory and the user of an operation that checks permissions. -/
def FuseOp.checked : FuseOp → Option (UInt64 × UInt32)
  | .mkdir parentId _ _ uid _ => some (parentId, uid)
  | .openDir id uid _ => some (id, uid)
  | _ => none

/-- The error numbers an operation fails with. -/
def FuseOp.MayFailWith (errno : ℕ) : FuseOp → Prop
  | .lookup _ _ => errno = ENOENT
  | .getAttr _ => errno = ENOENT
  | .mkdir _ _ _ _ _ => errno = ENOENT ∨ errno = EACCES
  | .openDir _ _ _ => errno = EIO ∨ errno = EACCES
  | .readDir _ _ _ _ _ _ => errno = EIO

section Errors

variable {opts : FuseOptions} {fb : FlatBuffers} {s : MountState} {trace : MountTrace}
  {t : FuseReq} {op : FuseOp} {reply : FuseReply}

/-- A reply was made on some state of the file system, and the directories it had are still
stored. -/
theorem exists_fsStep [Libfuse] (h : Run (mountStep opts fb) MountState.init trace s)
    (hundisturbed : Undisturbed trace) (hreply : .respond t reply ∈ mountHistory trace) :
    ∃ op rows rows', .invoke t op ∈ mountHistory trace ∧
      FsStep opts (Opened (clientTrace trace)) rows op reply rows' ∧
      ∀ id dir, dirOf rows id = some dir → id ≠ kRootInodeID.val →
        s.namenode.kv.store.db.HasInode ⟨id⟩ := by
  obtain ⟨order, last, hdb, hlin⟩ := mountOrder_run h hundisturbed
  obtain ⟨before, after, e, rows, rows', rfl, rfl, rfl, _, hstep, hafter⟩ := hlin.exists_step hreply
  refine ⟨e.input, rows, rows', hlin.invoked e (by simp), hstep, fun id dir hdir hid => ?_⟩
  -- directories are not removed, so it is among the rows of the last state
  have hlast : dirOf last id = some dir :=
    hafter.invariant (P := fun rows => dirOf rows id = some dir) (hstep.dirOf_kept hdir)
      fun e _ rows rows' hrows hs => hs.dirOf_kept hrows
  rw [hdb]
  exact hasInode_dbOf.mpr (mem_of_dirOf hlast hid)

/-- A `mkdir` or `opendir` of a user who is not the superuser fails exactly when it is not
in the root directory. -/
theorem unprivileged_iff_root [Libfuse] (h : Run (mountStep opts fb) MountState.init trace s)
    (hundisturbed : Undisturbed trace) (hop : .invoke t op ∈ mountHistory trace)
    (hreply : .respond t reply ∈ mountHistory trace) {id : UInt64} {uid : UInt32}
    (hchecked : op.checked = some (id, uid)) (huid : uid ≠ 0) :
    (∃ errno, reply = .err errno) ↔ id ≠ kRootInodeID.val := by
  obtain ⟨op', rows, rows', hop', hstep, _⟩ := exists_fsStep h hundisturbed hreply
  obtain rfl := invoke_unique h hop hop'
  -- the root is never missing, and nobody is refused there
  have hroot : dirOf rows kRootInodeID.val = some rootDir := if_pos rfl
  have hmissing : ∀ {id : UInt64}, dirOf rows id = none → id ≠ kRootInodeID.val := by
    rintro id hnone rfl
    cases hroot.symm.trans hnone
  have hdenied : ∀ {id : UInt64}, ¬ MayUse uid id → id ≠ kRootInodeID.val :=
    fun hmay heq => hmay (.inr heq)
  have hallowed : ∀ {id : UInt64}, MayUse uid id → id = kRootInodeID.val :=
    fun hmay => hmay.resolve_left huid
  cases hstep with
  | found | notFound | attr | noAttr | noMore | more => cases hchecked
  | made now _ hmay _ _ =>
    cases hchecked
    exact iff_of_false (fun ⟨errno, heq⟩ => nomatch heq) (not_not.mpr (hallowed hmay))
  | noParent hnone =>
    cases hchecked
    exact iff_of_true ⟨_, rfl⟩ (hmissing hnone)
  | notMade _ hmay =>
    cases hchecked
    exact iff_of_true ⟨_, rfl⟩ (hdenied hmay)
  | opened _ hmay fh =>
    cases hchecked
    exact iff_of_false (fun ⟨errno, heq⟩ => nomatch heq) (not_not.mpr (hallowed hmay))
  | missing hnone =>
    cases hchecked
    exact iff_of_true ⟨_, rfl⟩ (hmissing hnone)
  | notOpened _ hmay =>
    cases hchecked
    exact iff_of_true ⟨_, rfl⟩ (hdenied hmay)

section Sample

open scoped Sample

/-- The `opendir` of `createThenRead` fails, and the `mkdir` does not. -/
theorem unprivileged_iff_root_createThenRead :
    ((∃ errno, FuseReply.err EACCES = .err errno) ↔ (2 : UInt64) ≠ kRootInodeID.val) ∧
      ((∃ errno, FuseReply.entry createThenReadEntry = .err errno) ↔
        (1 : UInt64) ≠ kRootInodeID.val) := by
  obtain ⟨s, hrun⟩ := exists_run_createThenRead
  have hmem : ∀ e ∈ createThenReadHistory, e ∈ mountHistory createThenReadTrace := by
    rw [mountHistory_createThenRead]
    exact fun _ he => he
  exact ⟨unprivileged_iff_root (t := 4) hrun undisturbed_createThenRead
      (hmem (.invoke 4 (.openDir 2 1000 1000)) (by decide)) (hmem _ (by decide)) rfl (by decide),
    unprivileged_iff_root (t := 0) hrun undisturbed_createThenRead
      (hmem (.invoke 0 (.mkdir 1 (ascii "a") 0x1ED 1000 1000)) (by decide)) (hmem _ (by decide))
      rfl (by decide)⟩

end Sample

/-- The only error numbers are these, so a `mkdir` never fails because its name is taken. An
`opendir` of a directory that does not exist is replied to with `EIO`, for every user. -/
theorem reply_errno [Libfuse] (h : Run (mountStep opts fb) MountState.init trace s)
    (hundisturbed : Undisturbed trace) (hop : .invoke t op ∈ mountHistory trace)
    (hreply : .respond t reply ∈ mountHistory trace) :
    (∀ errno, reply = .err errno → op.MayFailWith errno) ∧
      ∀ id uid gid, op = .openDir id uid gid → id ≠ kRootInodeID.val →
        ¬ s.namenode.kv.store.db.HasInode ⟨id⟩ → reply = .err EIO := by
  obtain ⟨op', rows, rows', hop', hstep, hstored⟩ := exists_fsStep h hundisturbed hreply
  obtain rfl := invoke_unique h hop hop'
  refine ⟨?_, ?_⟩
  · rintro errno rfl
    cases hstep <;> simp [FuseOp.MayFailWith]
  · rintro id uid gid rfl hid hmissing
    cases hstep with
    | missing => rfl
    | opened hdir => exact absurd (hstored id _ hdir hid) hmissing
    | notOpened hdir => exact absurd (hstored id _ hdir hid) hmissing

section Sample

open scoped Sample

/-- The superuser opens a directory that nobody has created. -/
def openMissing : List MountInput :=
  .start 0 (.openDir 9 0 0) ::
    ([.accept (FuseOp.openDir 9 0 0).req, .takeSnapshot, .call none].map fun event =>
      .serve ⟨0, event⟩) ++ [.complete 0 true]

/-- Its trace. -/
def openMissingTrace : MountTrace :=
  ((replay (mountStep {} .sample) MountState.init openMissing).map Prod.fst).getD []

theorem reply_errno_openMissing :
    .respond 0 (.err EIO) ∈ mountHistory openMissingTrace ∧
      (FuseOp.openDir 9 0 0).MayFailWith EIO ∧
      ∀ reply, .respond 0 reply ∈ mountHistory openMissingTrace → reply = .err EIO := by
  obtain ⟨s, hrun, hmissing⟩ : ∃ s, Run (mountStep {} .sample) MountState.init openMissingTrace s ∧
      decide (s.namenode.kv.store.db.HasInode ⟨9⟩) = false :=
    exists_run_of_replay_eq openMissing
      (fun s : MountState => decide (s.namenode.kv.store.db.HasInode ⟨9⟩)) rfl
  have hundisturbed : Undisturbed openMissingTrace := by decide +kernel
  have hop : .invoke 0 (.openDir 9 0 0) ∈ mountHistory openMissingTrace := by decide +kernel
  have hreply : .respond 0 (.err EIO) ∈ mountHistory openMissingTrace := by decide +kernel
  refine ⟨hreply, ?_, fun reply hmem => ?_⟩
  · exact (reply_errno hrun hundisturbed hop hreply).1 EIO rfl
  · exact (reply_errno hrun hundisturbed hop hmem).2 9 0 0 rfl (by decide)
      (of_decide_eq_false hmissing)

end Sample

end Errors

/-! ### Reading a directory -/

section Streams

variable {opts : FuseOptions} {fb : FlatBuffers} {s : MountState} {trace : MountTrace}
  {t : FuseReq} {id : UInt64} {uid gid : UInt32} {fh : ℕ}

/-- A completion the kernel gets a reply from is seen by it. -/
theorem respond_mem_mountHistory {outcome : RpcOutcome} {ok : Bool} {output : ClientOutput}
    (h : (.complete t outcome ok, output) ∈ clientTrace trace) {r : FuseReq × FuseReply}
    (hr : r ∈ output.replies) : .respond r.1 r.2 ∈ mountHistory trace := by
  obtain ⟨⟨input, step⟩, hstep, hpart⟩ := List.mem_flatMap.mp h
  refine List.mem_flatMap.mpr ⟨(input, step), hstep, ?_⟩
  cases step with
  | namenode => cases hpart
  | client clientInput clientOutput =>
    obtain ⟨rfl, rfl⟩ := Prod.mk.inj (List.mem_singleton.mp hpart)
    exact List.mem_map.mpr ⟨r, hr, rfl⟩

/-- An operation that has asked the namenode was started by the client. -/
theorem start_mem_clientTrace {op : FuseOp} (h : .invoke t op ∈ mountHistory trace) :
    ∃ output, (.start t op, output) ∈ clientTrace trace ∧ output.sent ≠ none := by
  obtain ⟨⟨input, step⟩, hstep, hvisible⟩ := List.mem_flatMap.mp h
  cases step with
  | namenode => cases hvisible
  | client clientInput output =>
    refine ⟨output, ?_⟩
    cases clientInput with
    | complete =>
      obtain ⟨_, _, heq⟩ := List.mem_map.mp hvisible
      cases heq
    | start u op' =>
      simp only [MountOutput.visible] at hvisible
      split_ifs at hvisible with hsent
      · cases List.mem_singleton.mp hvisible
        refine ⟨List.mem_flatMap.mpr ⟨_, hstep, List.mem_cons_self⟩, ?_⟩
        exact Option.isSome_iff_ne_none.mp hsent
      · cases hvisible

/-- If there is no directory 0, no request for more entries is answered with any. -/
theorem onePage_of_mount [Libfuse] (h : Run (mountStep opts fb) MountState.init trace s)
    (hundisturbed : Undisturbed trace) (hzero : ¬ s.namenode.kv.store.db.HasInode ⟨0⟩) :
    OnePage (clientTrace trace) := by
  intro u outcome ok output hmem r hr dirents hbuf
  have hreply := respond_mem_mountHistory hmem hr
  rw [hbuf] at hreply
  obtain ⟨op, rows, rows', _, hstep, hstored⟩ := exists_fsStep h hundisturbed hreply
  cases hstep with
  | more hdir => exact hzero (hstored 0 _ hdir (by decide))

/-- The names the kernel passes end at the first NUL, so no directory has one in its name. -/
theorem nul_not_mem_name [Libfuse] {opens : ℕ → CacheDirEntries → Prop}
    {order : List (Effect FuseReq FuseOp FuseReply)} {rows : List Dir}
    (h : Sequential (FsStep opts opens) [] order rows) : ∀ dir ∈ rows, 0 ∉ dir.name := by
  refine h.invariant (P := fun rows => ∀ dir ∈ rows, 0 ∉ dir.name)
    (fun dir hdir => absurd hdir List.not_mem_nil) fun e _ rows rows' hrows hs => ?_
  rcases hs.rows_cases with rfl | ⟨_, name, _, _, _, _, _, _, _, rfl⟩
  · exact hrows
  · intro dir hdir
    rcases List.mem_append.mp hdir with hold | hlast
    · exact hrows dir hold
    · rw [List.mem_singleton.mp hlast]
      exact nul_not_mem_cStr name

theorem map_cEntry_firstPage {rows : List Dir} {dir : Dir} (h : ∀ dir ∈ rows, 0 ∉ dir.name) :
    (firstPage rows id dir).map cEntry = firstPage rows id dir := by
  refine map_cEntry fun e he => ?_
  rcases List.mem_cons.mp he with rfl | he
  · exact (by decide : (0 : UInt8) ∉ ascii ".")
  rcases List.mem_cons.mp he with rfl | he
  · exact (by decide : (0 : UInt8) ∉ ascii "..")
  · obtain ⟨child, hchild, rfl⟩ := List.mem_map.mp he
    exact h child (rowOfEntry_mem (mem_childrenOf.mp (List.mem_of_mem_take hchild))).1

/-- What is read through a handle is `.`, `..` and the first entries of the directory as it
was when the `opendir` took its place in the order, at most 100 of them, whatever is created
meanwhile. The namenode is asked again only if there were no entries. -/
theorem mount_stream [Libfuse] (h : Run (mountStep opts fb) MountState.init trace s)
    (hundisturbed : Undisturbed trace) (hzero : ¬ s.namenode.kv.store.db.HasInode ⟨0⟩)
    (hopen : .invoke t (.openDir id uid gid) ∈ mountHistory trace)
    (hopened : .respond t (.opened fh) ∈ mountHistory trace) :
    ∃ before e after rows rows' dir,
      Linearizes (FsStep opts (Opened (clientTrace trace))) [] (mountHistory trace)
        (before ++ e :: after) rows' ∧
      e.op = t ∧ Sequential (FsStep opts (Opened (clientTrace trace))) [] before rows ∧
      dirOf rows id = some dir ∧
      receivedThrough (clientTrace trace) fh = firstPage rows id dir ∧
      shownThrough (clientTrace trace) fh <+: streamFrom 0 (firstPage rows id dir) ∧
      ∀ u id' size off uid' gid',
        .invoke u (.readDir id' size off fh uid' gid') ∈ mountHistory trace →
        childrenOf rows ⟨id⟩ = [] := by
  have hclient := run_client h
  have hpage := onePageInv_run hclient (onePage_of_mount h hundisturbed hzero)
  have hopens := openedInv_run hclient
  obtain ⟨order, rows', _, hlin⟩ := mountOrder_run h hundisturbed
  obtain ⟨before, after, e, rows, rows₂, rfl, rfl, houtput, hbefore, hstep, _⟩ :=
    hlin.exists_step hopened
  rw [invoke_unique h (hlin.invoked e (by simp)) hopen, houtput] at hstep
  cases hstep with
  | @opened _ _ _ dir hdir _ _ hcaches =>
    obtain ⟨_, resp, handles, handles', ok, output, _, _, hfinish, hcomplete, hreply⟩ :=
      (mountInv_run h).responded e.op _ hopened
    -- only the response to a `ListDir` opens a handle
    obtain ⟨page, rfl⟩ : ∃ page, resp = .listDir page := by
      have hfinished := FuseOp.finish_inv hfinish
      generalize hreply' : FuseReply.opened fh = reply at hfinished
      cases hfinished with
      | plain _ hnot => exact absurd hreply'.symm (hnot fh)
      | opened page => exact ⟨page, rfl⟩
      | more => cases hreply'
    have hfh : Opened (clientTrace trace) fh (FuseOpenDirOp.onSuccess page) :=
      ⟨e.op, page, ok, output, hcomplete, hreply, rfl⟩
    have hcache := hcaches _ hfh
    have hreceived : receivedThrough (clientTrace trace) fh = firstPage rows id dir := by
      rw [hpage.received_eq hopens hfh, hcache]
      rfl
    refine ⟨before, e, after, rows, rows', dir, hlin, rfl, hbefore, hdir, hreceived, ?_, ?_⟩
    · have hshown := (handlesInv_run hclient).shown_isPrefix fh
      rwa [hreceived, map_cEntry_firstPage (nul_not_mem_name hbefore)] at hshown
    · -- who asks again has the flag that only an empty directory is opened with
      intro u id' size off uid' gid' hasked
      obtain ⟨output, hstart, hsent⟩ := start_mem_clientTrace hasked
      obtain ⟨cache, hfh', hmore⟩ := hpage.asked u id' size off fh uid' gid' output hstart hsent
      rw [hopens.unique fh cache _ hfh' hfh, hcache] at hmore
      exact of_decide_eq_true hmore

end Streams

section Sample

open scoped Sample

/-- A directory is created, the root is opened, and another one is created before the root
is read to its end. -/
def readWhileCreating : List MountInput :=
  let serve (t : FuseReq) (op : FuseOp) (events : List Event) : List MountInput :=
    (.accept op.req :: .takeSnapshot :: events).map fun event => .serve ⟨t, event⟩
  let mkdir (t : FuseReq) (name : String) (id : UInt64) : List MountInput :=
    let op : FuseOp := .mkdir 1 (ascii name) 0x1ED 0 0
    [.start t op] ++ serve t op [.call none, .next (.ok ⟨id⟩), .nowNs 5000000000, .call none,
      .call none, .call none, .call none, .drawCommit, .isConflictFree, .writeBatch true] ++
    [.complete t true]
  mkdir 0 "a" 2 ++ [.start 1 (.openDir 1 1000 1000)] ++
    serve 1 (.openDir 1 1000 1000) [.call none, .call none] ++ mkdir 2 "b" 3 ++
    [.complete 1 true, .start 3 (.readDir 1 64 0 1 1000 1000),
      .start 4 (.readDir 1 4096 2 1 1000 1000), .start 5 (.readDir 1 4096 3 1 1000 1000)]

/-- Its trace. -/
def readWhileCreatingTrace : MountTrace :=
  ((replay (mountStep {} .sample) MountState.init readWhileCreating).map Prod.fst).getD []

/-- The reader sees the first directory and not the second one, although the second one was
there before the `opendir` was replied to. -/
theorem mount_stream_readWhileCreating :
    (shownThrough (clientTrace readWhileCreatingTrace) 1).map Dirent.name =
        [ascii ".", ascii "..", ascii "a"] ∧
      ∃ before e after rows rows' dir,
        Linearizes (FsStep {} (Opened (clientTrace readWhileCreatingTrace))) []
          (mountHistory readWhileCreatingTrace) (before ++ e :: after) rows' ∧
        e.op = 1 ∧ Sequential (FsStep {} (Opened (clientTrace readWhileCreatingTrace))) []
          before rows ∧
        shownThrough (clientTrace readWhileCreatingTrace) 1 <+:
          streamFrom 0 (firstPage rows 1 dir) := by
  obtain ⟨s, hrun, hzero⟩ : ∃ s, Run (mountStep {} .sample) MountState.init
      readWhileCreatingTrace s ∧ decide (s.namenode.kv.store.db.HasInode ⟨0⟩) = false :=
    exists_run_of_replay_eq readWhileCreating
      (fun s : MountState => decide (s.namenode.kv.store.db.HasInode ⟨0⟩)) rfl
  have hopen : .invoke 1 (.openDir 1 1000 1000) ∈ mountHistory readWhileCreatingTrace := by
    decide +kernel
  have hopened : .respond 1 (.opened 1) ∈ mountHistory readWhileCreatingTrace := by
    decide +kernel
  obtain ⟨before, e, after, rows, rows', dir, hlin, hop, hbefore, _, _, hshown, _⟩ :=
    mount_stream hrun (by decide +kernel) (of_decide_eq_false hzero) hopen hopened
  exact ⟨by decide +kernel, before, e, after, rows, rows', dir, hlin, hop, hbefore, hshown⟩

end Sample

end RocketFS
