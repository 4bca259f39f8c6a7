import RocketFS.Service.Handlers
import RocketFS.Table.Writes

/-!
# The answer to a `Mkdirs` and its commit

`MkdirsOp` sees the store through the interface `KVStoreBase`, whose `CommitTxn` either
succeeds, and then the buffered writes are in the database, or returns a status, and then
nothing is written. Here the handler runs on a store of which only this is known. It
does not look at what the commit returned, so its answer agrees with the database exactly
when the commit, if it comes to it, succeeds.

## Main definitions

* `BaseStore`, `handleBase` — a request on a store behind the interface
* `AnswerAgrees` — the answer agrees with the commit and with the database

## Main results

* `commitTxn_permitted` — `RocksDBKVStore` keeps to the interface
* `mkdirs_answer_agrees_iff` — when the answer to a `Mkdirs` agrees
-/

namespace RocketFS

/-- The database behind the interface, and what `CommitTxn` returned, once it was called. -/
structure BaseStore where
  db : Database
  result? : Option (Except Status Unit)

/-- `KVStoreBase::CommitTxn`, with the outcome it has: an error writes nothing. -/
def BaseStore.commitTxn (outcome : Except Status Unit) (store : BaseStore) (txn : Txn) :
    Except Crash (Except Status Unit) × BaseStore :=
  (.ok outcome,
    { db := match outcome with
        | .ok () => store.db.write txn.writeSet
        | .error _ => store.db
      result? := some outcome })

/-- The store behind the interface and the transaction of the request. -/
abbrev BaseState := RequestState BaseStore

/-- A request that has not called anything. Others may have written since its
snapshot. -/
def BaseState.start (db snapshot : Database) (startVersion : ℤ) : BaseState :=
  ⟨⟨db, none⟩, Txn.new snapshot startVersion⟩

/-- Answer a call. -/
abbrev handleBase (env : Env) (outcome : Except Status Unit) :
    BaseState → (op : Operation) → Except Crash op.Answer × BaseState :=
  handleWith (BaseStore.commitTxn outcome) env

/-- What the interface promises of a commit holds of `RocksDBKVStore`. -/
theorem commitTxn_permitted {store store' : KVStore} {txn : Txn} {outcome : Except Status Unit}
    (h : store.commitTxn txn = (.ok outcome, store')) :
    store'.db = (BaseStore.commitTxn outcome ⟨store.db, none⟩ txn).2.db := by
  simp only [KVStore.commitTxn] at h
  split at h
  · cases h
  · -- a conflict: the status is built, and nothing is written
    obtain ⟨hstatus, rfl⟩ := Prod.mk.inj h
    obtain ⟨status, _, rfl⟩ := map_ok hstatus
    rfl
  · cases h
    rfl

/-- The database has changed in the records of one row, one key in each of its four
column families, and nowhere else. -/
def ChangedInRow (fb : FlatBuffers) (before after : Database) (dir : Dir) : Prop :=
  (∀ record ∈ dirRecords fb dir, after.view record.1 = some record.2) ∧
    ∀ k ∉ (dirRecords fb dir).map Prod.fst, after.view k = before.view k

/-- The answer to a `Mkdirs` agrees with what the commit returned and with what became of
the database. -/
structure AnswerAgrees (fb : FlatBuffers) (req : MkdirsRequest) (before : Database)
    (resp : MkdirsResponse) (s : BaseState) : Prop where
  success_iff : resp.errorCode = 0 ↔ s.store.result? = some (.ok ())
  created : resp.errorCode = 0 → ∃ dir : Dir, dir.parentId.val = req.parentId ∧
    dir.name = req.name ∧ resp.id = dir.id.val ∧ ChangedInRow fb before s.store.db dir
  unchanged : resp.errorCode ≠ 0 → s.store.db = before

section Exec

variable {fb : FlatBuffers} {env : Env} {outcome : Except Status Unit} {s : BaseState}

theorem Txn.answer_ok {txn txn' : Txn} {fault : Option Bytes} {op : ReadOp} {x : op.Answer}
    (h : txn.answer fault op = .ok (txn', x)) :
    ∃ readSet, txn' = { txn with readSet := readSet } := by
  cases op with
  | get cf key => exact (Txn.get_ok h).1
  | getRange cf startKey endKey limit => exact ⟨txn.readSet, (Txn.getRange_ok h).1⟩

/-- A reading handler leaves everything but the read set as it was. -/
theorem exec_lift_base {α : Type} (p : ReadM α) (s : BaseState) :
    ∃ readSet, (p.lift.exec (handleBase env outcome) s).2 =
      { s with txn := { s.txn with readSet := readSet } } := by
  induction p generalizing s with
  | done result => exact ⟨s.txn.readSet, rfl⟩
  | call op next ih =>
    simp only [ReadM.lift, Program.exec, handleWith]
    cases hop : s.txn.answer (env.fault op) op with
    | error crash => exact ⟨s.txn.readSet, rfl⟩
    | ok answer =>
      obtain ⟨readSet, htxn⟩ := Txn.answer_ok hop
      obtain ⟨readSet', hnext⟩ := ih answer.2 { s with txn := answer.1 }
      refine ⟨readSet', hnext.trans ?_⟩
      rw [htxn]

/-- The commit is called, and its outcome is remembered. -/
def BaseState.committed (s : BaseState) (outcome : Except Status Unit) : BaseState :=
  ⟨(BaseStore.commitTxn outcome s.store s.txn).2, s.txn⟩

/-- Behind the checks: the id is drawn, the four records are buffered, and the commit is
called; its outcome is not in the response. -/
theorem MkdirsOp.exec_create (req : MkdirsRequest) (parentDir : Dir) {id : InodeID}
    (hid : env.id = .ok id) :
    let dir := newDir req parentDir id env.nowNs
    (create (KVDirTable.table fb) req parentDir).exec (handleBase env outcome) s =
      (.ok { id := dir.id.val, stat := some dir.stat },
        BaseState.committed (s.buffer (dirOps fb none (some dir))) outcome) := by
  have hnext : handleBase env outcome s .next = (.ok id, s) := by
    simp only [handleBase, handleWith, hid]
  exact Program.exec_call_ok hnext

theorem MkdirsOp.exec_create_error (req : MkdirsRequest) (parentDir : Dir) {crash : Crash}
    (hid : env.id = .error crash) :
    (create (KVDirTable.table fb) req parentDir).exec (handleBase env outcome) s =
      (.error crash, s) := by
  have hnext : handleBase env outcome s .next = (.error crash, s) := by
    simp only [handleBase, handleWith, hid]
  exact Program.exec_call_error hnext

theorem changedInRow_write (db : Database) (dir : Dir) :
    ChangedInRow fb db (db.write (WriteSet.addOps .empty (dirOps fb none (some dir)))) dir := by
  have hdb : db.write (WriteSet.addOps .empty (dirOps fb none (some dir))) =
      rewriteDir fb db none (some dir) :=
    eq_rewriteDir (fun record hrecord => by cases hrecord) (Database.view_write_addOps _ _ _)
  rw [hdb]
  refine ⟨fun record hrecord => view_rewriteDir_new hrecord, fun k hk => ?_⟩
  exact view_rewriteDir_other hk

/-- What a crash of a `Mkdirs` comes from: the read of the parent, or the draw of the
id. -/
def MkdirsOp.CrashFrom (fb : FlatBuffers) (env : Env) (outcome : Except Status Unit)
    (req : MkdirsRequest) (s : BaseState) (crash : Crash) : Prop :=
  ((KVDirTable.read fb ⟨req.parentId⟩).lift.exec (handleBase env outcome) s).1 = .error crash ∨
    env.id = .error crash

/-- How a `Mkdirs` can end: before the commit, with an answer or without, or behind it, and
then with an answer that reports success. -/
inductive MkdirsOp.Ends (fb : FlatBuffers) (env : Env) (outcome : Except Status Unit)
    (req : MkdirsRequest) (s : BaseState) : Except Crash MkdirsResponse → BaseState → Prop
  | crashed {crash : Crash} {s' : BaseState} (h : CrashFrom fb env outcome req s crash)
      (hstore : s'.store = s.store) :
      Ends fb env outcome req s (.error crash) s'
  | refused {resp : MkdirsResponse} {s' : BaseState} (h : resp.errorCode ≠ 0)
      (hstore : s'.store = s.store) :
      Ends fb env outcome req s (.ok resp) s'
  | committed {s' : BaseState} (dir : Dir) (hparent : dir.parentId.val = req.parentId)
      (hname : dir.name = req.name) (hstore : s'.store = s.store)
      (hwrites : s'.txn.writeSet = s.txn.writeSet) :
      Ends fb env outcome req s (.ok { id := dir.id.val, stat := some dir.stat })
        (BaseState.committed (s'.buffer (dirOps fb none (some dir))) outcome)

theorem MkdirsOp.exec_run_ends {req : MkdirsRequest} {s' : BaseState}
    {r : Except Crash MkdirsResponse}
    (h : (run fb req).exec (handleBase env outcome) s = (r, s')) :
    Ends fb env outcome req s r s' := by
  -- the read of the parent leaves everything but the read set as it was
  rw [run, runOn, KVDirTable.table_read, Program.exec_bind] at h
  rcases hread : (KVDirTable.read fb ⟨req.parentId⟩).lift.exec (handleBase env outcome) s with
    ⟨parent, s₁⟩
  obtain ⟨readSet, rfl⟩ : ∃ readSet, s₁ = { s with txn := { s.txn with readSet := readSet } } := by
    obtain ⟨readSet, hs₁⟩ := exec_lift_base (KVDirTable.read fb ⟨req.parentId⟩) s
    rw [hread] at hs₁
    exact ⟨readSet, hs₁⟩
  rw [hread] at h
  rcases parent with crash | status | _ | parentDir
  · -- the read crashes; below, it fails or finds no directory
    cases h
    exact .crashed (.inl (congrArg Prod.fst hread)) rfl
  · cases h
    exact .refused (by decide) rfl
  · cases h
    exact .refused (by decide) rfl
  · -- the parent is there: the permission comes next, then the draw of the id
    change (Program.done (checkPermission parentDir.acl ⟨req.uid, req.gid⟩ S_IWOTH) >>= _).exec
      (handleBase env outcome) _ = _ at h
    by_cases hperm : HasPermission parentDir.acl ⟨req.uid, req.gid⟩ S_IWOTH
    · rw [checkPermission_of_has hperm] at h
      change (create (KVDirTable.table fb) req parentDir).exec (handleBase env outcome) _ = _ at h
      cases hid : env.id with
      | error crash =>
        rw [exec_create_error req parentDir hid] at h
        cases h
        exact .crashed (.inr hid) rfl
      | ok id =>
        rw [exec_create req parentDir hid] at h
        cases h
        exact .committed (newDir req parentDir id env.nowNs) rfl rfl rfl rfl
    · obtain ⟨status, hcheck, _⟩ := checkPermission_of_not hperm
      rw [hcheck] at h
      cases h
      exact .refused (by decide) rfl

/-- A commit that succeeds agrees with the answer, and one that does not contradicts
it. -/
theorem answerAgrees_committed {req : MkdirsRequest} {db : Database} {s : BaseState} {dir : Dir}
    (hparent : dir.parentId.val = req.parentId) (hname : dir.name = req.name)
    (hdb : s.store.db = db) (hwrites : s.txn.writeSet = .empty) :
    AnswerAgrees fb req db { id := dir.id.val, stat := some dir.stat }
      (BaseState.committed (s.buffer (dirOps fb none (some dir))) outcome) ↔
        outcome = .ok () := by
  constructor
  · intro hagrees
    exact Option.some.inj (hagrees.success_iff.mp rfl)
  · rintro rfl
    refine ⟨iff_of_true rfl rfl, fun _ => ⟨dir, hparent, hname, rfl, ?_⟩, fun h => absurd rfl h⟩
    -- nothing was buffered before, so the batch is the four records of the new directory
    have hchanged : ChangedInRow fb s.store.db
        (s.store.db.write (WriteSet.addOps .empty (dirOps fb none (some dir)))) dir :=
      changedInRow_write s.store.db dir
    rw [← hdb]
    rwa [← hwrites] at hchanged

end Exec

/-- The answer agrees exactly when the commit was not refused, if it came to one. There is
an answer unless the read of the parent or the draw of the id crashes, and both are before
the commit. -/
theorem mkdirs_answer_agrees_iff (fb : FlatBuffers) (env : Env) (outcome : Except Status Unit)
    (req : MkdirsRequest) (db snapshot : Database) (startVersion : ℤ)
    {r : Except Crash MkdirsResponse} {s : BaseState}
    (h : (MkdirsOp.run fb req).exec (handleBase env outcome)
      (BaseState.start db snapshot startVersion) = (r, s)) :
    (∀ resp, r = .ok resp →
      (AnswerAgrees fb req db resp s ↔ ∀ status, s.store.result? ≠ some (.error status))) ∧
      ∀ crash, r = .error crash → s.store.db = db ∧ s.store.result? = none ∧
        MkdirsOp.CrashFrom fb env outcome req (BaseState.start db snapshot startVersion) crash := by
  cases MkdirsOp.exec_run_ends h with
  | crashed hcrash hstore =>
    refine ⟨fun resp hr => (by cases hr), fun crash' hr => ?_⟩
    cases hr
    exact ⟨congrArg BaseStore.db hstore, congrArg BaseStore.result? hstore, hcrash⟩
  | @refused resp _ hcode hstore =>
    refine ⟨fun resp' hr => ?_, fun crash hr => by cases hr⟩
    cases hr
    -- neither has happened, and nothing was written
    have hdb : s.store.db = db := congrArg BaseStore.db hstore
    have hnone : s.store.result? = none := congrArg BaseStore.result? hstore
    have hnot : s.store.result? ≠ some (.ok ()) := by
      rw [hnone]
      exact Option.some_ne_none _ ∘ Eq.symm
    refine iff_of_true ⟨iff_of_false hcode hnot, fun h => absurd h hcode, fun _ => hdb⟩ ?_
    intro status hstatus
    rw [hnone] at hstatus
    cases hstatus
  | committed dir hparent hname hstore hwrites =>
    refine ⟨fun resp hr => ?_, fun crash hr => by cases hr⟩
    cases hr
    have hdb := congrArg BaseStore.db hstore
    refine (answerAgrees_committed hparent hname hdb hwrites).trans ?_
    -- what the commit returned is remembered
    constructor
    · rintro rfl status hstatus
      cases hstatus
    · intro hnot
      cases outcome with
      | ok _ => rfl
      | error status => exact absurd rfl (hnot status)

/-- A `Mkdirs` of the root whose id is 2. -/
def Env.second : Env := ⟨.ok ⟨2⟩, 70, fun _ => none⟩

/-- A `Mkdirs` on an empty database whose commit succeeds. -/
theorem mkdirs_answer_agrees_committed :
    ∃ resp s, (MkdirsOp.run .sample ⟨1, ascii "a", 0x1ED, 0, 0⟩).exec
        (handleBase Env.second (.ok ())) (BaseState.start .empty .empty 1) = (.ok resp, s) ∧
      AnswerAgrees .sample ⟨1, ascii "a", 0x1ED, 0, 0⟩ .empty resp s := by
  refine ⟨_, _, rfl, ?_⟩
  refine ((mkdirs_answer_agrees_iff .sample Env.second (.ok ()) ⟨1, ascii "a", 0x1ED, 0, 0⟩
    .empty .empty 1 rfl).1 _ rfl).mpr ?_
  intro status hstatus
  cases hstatus

/-- A status that `CommitTxn` may return. -/
def aborted : Status := ⟨.conflictError, ascii "Conflict.", by decide⟩

/-- The same request when the commit is refused: the answer reports success, and the
directory is nowhere. -/
theorem mkdirs_answers_success_aborted :
    ∃ resp s, (MkdirsOp.run .sample ⟨1, ascii "a", 0x1ED, 0, 0⟩).exec
        (handleBase Env.second (.error aborted)) (BaseState.start .empty .empty 1) =
          (.ok resp, s) ∧
      resp.errorCode = 0 ∧ resp.id = 2 ∧ s.store.result? = some (.error aborted) ∧
      s.store.db = .empty :=
  ⟨_, _, rfl, rfl, rfl, rfl, rfl⟩

end RocketFS
