import RocketFS.KV.Conflicts
import RocketFS.Service.Handlers

/-!
# What a request does when nothing interferes

The result of a handler that runs to its end without another request in between, in
closed form. A request that reads is answered by the database; a `Mkdirs` reads the row
of its parent, and from there either is refused or creates the directory. The results
are about a transaction that has been started already, so that they apply to a thread
in the middle of a run as well as to a whole request.

## Main definitions

* `finishRequest` — run a handler to its end in a given transaction
* `MkdirsOp.verdict` — what a `Mkdirs` decides from the row of its parent
* `Request.settled` — the answer to a request, as far as the database settles it
* `Atomic` — a request is executed alone on a database

## Main results

* `finish_settled` — a settled request returns its answer and changes nothing
* `atomic_of_settled`, `atomic_of_creates` — the two ways in which a request is executed
-/

namespace RocketFS

/-- Run a handler to its end in a transaction that has been started. -/
def finishRequest {α : Type} (env : Env) (p : HandlerM α) (s : HandlerState) :
    Except Crash α × KVStore :=
  let (result, s') := p.exec (handle env) s
  (result, s'.store)

theorem runRequest_eq_finishRequest {α : Type} (env : Env) (p : HandlerM α) (store : KVStore) :
    runRequest env p store = finishRequest env p (.start store) := rfl

section Finish

variable {α β : Type} {env : Env} {s s' : HandlerState}

theorem finish_call_ok {op : Operation} {next : op.Answer → HandlerM α} {x : op.Answer}
    (h : handle env s op = (.ok x, s')) :
    finishRequest env (.call op next) s = finishRequest env (next x) s' := by
  simp only [finishRequest]
  rw [Program.exec_call_ok h]

/-- A handler that begins by reading. -/
theorem finish_lift_bind (henv : ∀ op, env.fault op = none) (p : ReadM α) (f : α → HandlerM β)
    (s : HandlerState) :
    ∃ readSet, finishRequest env (p.lift >>= f) s = match ask s.txn.snapshot p with
      | .ok a => finishRequest env (f a) { s with txn := { s.txn with readSet := readSet } }
      | .error crash => (.error crash, s.store) := by
  obtain ⟨readSet, hexec⟩ := exec_lift henv p s
  refine ⟨readSet, ?_⟩
  simp only [finishRequest]
  rw [Program.exec_bind, hexec]
  cases ask s.txn.snapshot p <;> rfl

/-- A handler that only wraps a reading one. -/
theorem finish_wrap (henv : ∀ op, env.fault op = none) (p : ReadM α) (f : α → β) :
    finishRequest env (do return f (← p.lift)) s = ((ask s.txn.snapshot p).map f, s.store) := by
  obtain ⟨readSet, hfinish⟩ := finish_lift_bind henv p (fun a => pure (f a)) s
  rw [hfinish]
  cases ask s.txn.snapshot p <;> rfl

/-- The result of a handler whose value is wrapped. -/
theorem finish_map (p : HandlerM α) (f : α → β) :
    finishRequest env (do return f (← p)) s =
      ((finishRequest env p s).1.map f, (finishRequest env p s).2) := by
  simp only [finishRequest]
  rw [Program.exec_bind]
  rcases p.exec (handle env) s with ⟨_ | a, s'⟩ <;> rfl

end Finish

/-! ### Mkdirs -/

namespace MkdirsOp

/-- What `Run` decides once it has read the row of the parent: an answer that refuses, or
the row it goes on with. -/
def verdict (req : MkdirsRequest) : Except Status (Option Dir) → Except MkdirsResponse Dir
  | .error _ => .error { errorCode := StatusCode.systemError.toInt32 }
  | .ok none => .error { errorCode := StatusCode.parentNotFoundError.toInt32 }
  | .ok (some parentDir) =>
    if HasPermission parentDir.acl ⟨req.uid, req.gid⟩ S_IWOTH then .ok parentDir
    else .error { errorCode := StatusCode.permissionError.toInt32 }

variable {fb : FlatBuffers} {req : MkdirsRequest} {read : Except Status (Option Dir)}
  {parentDir : Dir}

theorem verdict_eq_ok : verdict req read = .ok parentDir ↔
    read = .ok (some parentDir) ∧ HasPermission parentDir.acl ⟨req.uid, req.gid⟩ S_IWOTH := by
  rcases read with status | _ | dir
  · simp [verdict]
  · simp [verdict]
  · by_cases hperm : HasPermission dir.acl ⟨req.uid, req.gid⟩ S_IWOTH
    · simp only [verdict, if_pos hperm, Except.ok.injEq, Option.some.injEq]
      exact ⟨fun h => ⟨h, h ▸ hperm⟩, fun h => h.1⟩
    · simp only [verdict, if_neg hperm, Except.ok.injEq, Option.some.injEq, reduceCtorEq,
        false_iff]
      rintro ⟨rfl, hhas⟩
      exact hperm hhas

/-- A refusal carries an error code. -/
theorem errorCode_of_refused {resp : MkdirsResponse} (h : verdict req read = .error resp) :
    resp.errorCode ≠ 0 := by
  rcases read with status | _ | dir
  · obtain rfl := Except.error.inj h
    decide
  · obtain rfl := Except.error.inj h
    decide
  · simp only [verdict] at h
    split_ifs at h
    obtain rfl := Except.error.inj h
    decide

/-- `Run` reads the row of the parent and then does what the verdict says. -/
theorem run_eq (fb : FlatBuffers) (req : MkdirsRequest) :
    run fb req = (KVDirTable.read fb ⟨req.parentId⟩).lift >>= fun read =>
      match verdict req read with
      | .error resp => pure resp
      | .ok parentDir => create (KVDirTable.table fb) req parentDir := by
  rw [run, runOn, KVDirTable.table_read]
  congr 1
  funext read
  rcases read with status | _ | dir
  · rfl
  · rfl
  · change (Program.done (checkPermission dir.acl ⟨req.uid, req.gid⟩ S_IWOTH) >>= _) = _
    by_cases hperm : HasPermission dir.acl ⟨req.uid, req.gid⟩ S_IWOTH
    · rw [checkPermission_of_has hperm]
      simp only [verdict, if_pos hperm]
      rfl
    · obtain ⟨status, hcheck, _⟩ := checkPermission_of_not hperm
      rw [hcheck]
      simp only [verdict, if_neg hperm]
      rfl

/-- How `Run` ends, by what its read returns and by the verdict. -/
theorem finish_run (fb : FlatBuffers) (req : MkdirsRequest) (s : HandlerState) {env : Env}
    (henv : ∀ op, env.fault op = none) : ∃ readSet, finishRequest env (run fb req) s =
      match ask s.txn.snapshot (KVDirTable.read fb ⟨req.parentId⟩) with
      | .error crash => (.error crash, s.store)
      | .ok read =>
        match verdict req read with
        | .error resp => (.ok resp, s.store)
        | .ok parentDir => finishRequest env (create (KVDirTable.table fb) req parentDir)
            { s with txn := { s.txn with readSet := readSet } } := by
  rw [run_eq]
  obtain ⟨readSet, hfinish⟩ := finish_lift_bind henv (KVDirTable.read fb ⟨req.parentId⟩)
    (fun read => match verdict req read with
      | .error resp => pure resp
      | .ok parentDir => create (KVDirTable.table fb) req parentDir) s
  refine ⟨readSet, hfinish.trans ?_⟩
  cases ask s.txn.snapshot (KVDirTable.read fb ⟨req.parentId⟩) with
  | error crash => rfl
  | ok read =>
    dsimp only
    cases verdict req read <;> rfl

/-- The answer to a `Mkdirs` that has created a directory. -/
def success (dir : Dir) : MkdirsResponse := { id := dir.id.val, stat := some dir.stat }

/-- Behind the verdict: the id is drawn, the four records are buffered, and the commit
succeeds. -/
theorem finish_create (fb : FlatBuffers) (req : MkdirsRequest) (parentDir : Dir) {env : Env}
    {s : HandlerState} {id : InodeID} (hid : env.id = .ok id)
    (hwrites : s.txn.writeSet = .empty) (hstore : s.store.Opened)
    (hpos : 0 < s.txn.startVersion) (hlt : s.txn.startVersion < s.store.version) :
    finishRequest env (create (KVDirTable.table fb) req parentDir) s =
      (.ok (success (newDir req parentDir id env.nowNs)),
        { s.store.bumpVersion with
          db := s.store.db.write (dirWrites fb (newDir req parentDir id env.nowNs)) }) := by
  have hnext : handle env s .next = (.ok id, s) := by
    simp only [handle, handleWith, hid]
  -- the state in which the commit is called
  let ready : HandlerState := ⟨s.store, { s.txn with
    writeSet := dirWrites fb (newDir req parentDir id env.nowNs) }⟩
  have hcommit : handle env ready .commitTxn = (.ok (.ok ()),
      ⟨{ s.store.bumpVersion with db := s.store.db.write ready.txn.writeSet }, ready.txn⟩) := by
    have hdone : ready.store.commitTxn ready.txn = _ := hstore.commitTxn hpos hlt
    simp only [handle, handleWith]
    rw [hdone]
  refine (finish_call_ok hnext).trans ?_
  obtain ⟨store, txn⟩ := s
  obtain ⟨snapshot, startVersion, commitVersion, readSet, writeSet⟩ := txn
  obtain rfl : writeSet = .empty := hwrites
  exact finish_call_ok hcommit

end MkdirsOp

/-! ### Requests of any kind -/

/-- The answer to a request, as far as it is settled by the database it reads. That of a
`Mkdirs` which goes on to create its directory is not. -/
def Request.settled (fb : FlatBuffers) (db : Database) :
    Request → Option (Except Crash Response)
  | .getInode req => some ((ask db (GetInodeOp.run fb req)).map .getInode)
  | .lookup req => some ((ask db (LookupOp.run fb req)).map .lookup)
  | .listDir req => some ((ask db (ListDirOp.run fb req)).map .listDir)
  | .mkdirs req =>
    match ask db (KVDirTable.read fb ⟨req.parentId⟩) with
    | .error crash => some (.error crash)
    | .ok read =>
      match MkdirsOp.verdict req read with
      | .error resp => some (.ok (.mkdirs resp))
      | .ok _ => none

/-- On this database the request goes on to create a directory below the parent. -/
def Request.Creates (fb : FlatBuffers) (db : Database) (parentDir : Dir) : Request → Prop
  | .mkdirs req => ask db (KVDirTable.read fb ⟨req.parentId⟩) = .ok (.ok (some parentDir)) ∧
      HasPermission parentDir.acl ⟨req.uid, req.gid⟩ S_IWOTH
  | _ => False

section Settled

variable {fb : FlatBuffers} {db : Database} {env : Env} {s : HandlerState}

theorem Request.settled_eq_none {req : Request} :
    req.settled fb db = none ↔ ∃ parentDir, req.Creates fb db parentDir := by
  cases req with
  | getInode req | lookup req | listDir req => simp [settled, Creates]
  | mkdirs req =>
    simp only [settled, Creates]
    cases hread : ask db (KVDirTable.read fb ⟨req.parentId⟩) with
    | error crash => simp
    | ok read =>
      simp only [Except.ok.injEq, ← MkdirsOp.verdict_eq_ok]
      cases MkdirsOp.verdict req read <;> simp

/-- A settled request returns its answer, and changes nothing. -/
theorem finish_settled (henv : ∀ op, env.fault op = none) {req : Request}
    {result : Except Crash Response} (h : req.settled fb s.txn.snapshot = some result) :
    finishRequest env (req.run fb) s = (result, s.store) := by
  cases req with
  | getInode req =>
    obtain rfl := Option.some.inj h
    exact finish_wrap henv _ _
  | lookup req =>
    obtain rfl := Option.some.inj h
    exact finish_wrap henv _ _
  | listDir req =>
    obtain rfl := Option.some.inj h
    exact finish_wrap henv _ _
  | mkdirs req =>
    obtain ⟨readSet, hfinish⟩ := MkdirsOp.finish_run fb req s henv
    rw [Request.run, finish_map, hfinish]
    simp only [Request.settled] at h
    cases hread : ask s.txn.snapshot (KVDirTable.read fb ⟨req.parentId⟩) with
    | error crash =>
      rw [hread] at h
      obtain rfl := Option.some.inj h
      rfl
    | ok read =>
      rw [hread] at h
      dsimp only at h ⊢
      cases hverdict : MkdirsOp.verdict req read with
      | error resp =>
        rw [hverdict] at h
        obtain rfl := Option.some.inj h
        rfl
      | ok parentDir =>
        rw [hverdict] at h
        cases h

/-- A request that creates a directory does what `create` does. -/
theorem finish_creates (henv : ∀ op, env.fault op = none) {req : MkdirsRequest} {parentDir : Dir}
    (h : (Request.mkdirs req).Creates fb s.txn.snapshot parentDir) :
    ∃ readSet, finishRequest env ((Request.mkdirs req).run fb) s =
      let created := finishRequest env (MkdirsOp.create (KVDirTable.table fb) req parentDir)
        { s with txn := { s.txn with readSet := readSet } }
      (created.1.map .mkdirs, created.2) := by
  obtain ⟨hread, hperm⟩ := h
  have hverdict : MkdirsOp.verdict req (.ok (some parentDir)) = .ok parentDir :=
    MkdirsOp.verdict_eq_ok.mpr ⟨rfl, hperm⟩
  obtain ⟨readSet, hfinish⟩ := MkdirsOp.finish_run fb req s henv
  refine ⟨readSet, ?_⟩
  rw [Request.run, finish_map, hfinish, hread]
  simp only [hverdict]

end Settled

/-! ### One request on a database -/

/-- A request is executed alone on a database by a store that has just opened it, and
answers; the second database is what it leaves behind. -/
def Atomic (fb : FlatBuffers) (db : Database) (req : Request) (resp : Response)
    (db' : Database) : Prop :=
  ∃ env store, (∀ op, env.fault op = none) ∧
    runRequest env (req.run fb) (KVStore.openDb db) = (.ok resp, store) ∧ store.db = db'

section Atomic

variable {fb : FlatBuffers} {db : Database}

theorem atomic_of_settled {req : Request} {resp : Response}
    (h : req.settled fb db = some (.ok resp)) : Atomic fb db req resp db := by
  let env : Env := ⟨.ok kRootInodeID, 0, fun _ => none⟩
  have henv : ∀ op, env.fault op = none := fun _ => rfl
  refine ⟨env, (KVStore.openDb db).bumpVersion, henv, ?_, rfl⟩
  rw [runRequest_eq_finishRequest]
  exact finish_settled henv h

theorem atomic_of_creates {req : MkdirsRequest} {parentDir : Dir}
    (h : (Request.mkdirs req).Creates fb db parentDir) (id : InodeID) (now : Int64) :
    Atomic fb db (.mkdirs req)
      (.mkdirs (MkdirsOp.success (MkdirsOp.newDir req parentDir id now)))
      (db.write (dirWrites fb (MkdirsOp.newDir req parentDir id now))) := by
  let env : Env := ⟨.ok id, now, fun _ => none⟩
  have henv : ∀ op, env.fault op = none := fun _ => rfl
  have hopened : (KVStore.openDb db).Opened := KVStore.opened_openDb db
  let s : HandlerState := ⟨(KVStore.openDb db).bumpVersion, (KVStore.openDb db).startTxn.1⟩
  obtain ⟨readSet, hfinish⟩ := finish_creates (s := s) henv h
  have hcreate : finishRequest env (MkdirsOp.create (KVDirTable.table fb) req parentDir)
      { s with txn := { s.txn with readSet := readSet } } = _ :=
    MkdirsOp.finish_create fb req parentDir rfl rfl hopened.bumpVersion hopened.version_pos
      (Int.lt_succ _)
  rw [hcreate] at hfinish
  exact ⟨env, _, henv, hfinish, rfl⟩

end Atomic

end RocketFS
