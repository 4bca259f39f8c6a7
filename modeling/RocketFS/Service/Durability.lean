import RocketFS.Service.Tree

/-!
# A created directory is never lost or altered

Once the batch of a `Mkdirs` is written, every transaction that takes its snapshot
later reads the directory with exactly the fields this `Mkdirs` wrote, whatever
else commits in between: later batches use other ids, so they do not touch the
id-keyed records, and a snapshot does not change.
-/

namespace RocketFS

/-- The thread has committed a `Mkdirs`: its request, the id and the clock reading it
drew, and the write of its batch are in the trace. -/
structure CommittedMkdirs (trace : ServiceTrace) (t : TxnId) (req : MkdirsRequest)
    (id : InodeID) (now : Int64) : Prop where
  accept : ∃ reply, (⟨t, .accept (.mkdirs req)⟩, reply) ∈ trace
  next : ∃ reply, (⟨t, .next (.ok id)⟩, reply) ∈ trace
  nowNs : ∃ reply, (⟨t, .nowNs now⟩, reply) ∈ trace
  writeBatch : ∃ reply, (⟨t, .writeBatch true⟩, reply) ∈ trace

/-- The threads whose batch is written are the committed ones. -/
theorem writeBatch_iff_committed {fb : FlatBuffers} {db : Database} {trace : ServiceTrace}
    {s : ServiceState} (h : Run (serviceStep fb) (ServiceState.init db) trace s) :
    ∀ t, (∃ reply, (⟨t, .writeBatch true⟩, reply) ∈ trace) ↔
      ∃ txn, s.kv.session t = some (.committed txn) := by
  refine h.invariant (P := fun trace s => ∀ t,
    (∃ reply, (⟨t, .writeBatch true⟩, reply) ∈ trace) ↔
      ∃ txn, s.kv.session t = some (.committed txn))
    (by simp [ServiceState.init, KVState.init]) ?_
  rintro trace s ⟨t, event⟩ s' reply hrun hinv hs u
  obtain ⟨action, thread', hthread, hstore, _, _⟩ := serviceStep_inv hs
  by_cases hu : u = t
  · subst hu
    rcases hstore.db_cases with ⟨haction, _, hquiet⟩ | ⟨txn, _, rfl, hcommitted, _⟩
    · -- a committed thread does not move, so neither side holds
      have hnot : ∀ txn, s.kv.session u ≠ some (.committed txn) := fun txn hcommitted =>
        (threadsInv_run hrun).no_step_of_committed hthread hcommitted
      constructor
      · rintro ⟨reply', hmem⟩
        rcases List.mem_append.mp hmem with hmem | hmem
        · obtain ⟨txn, hcommitted⟩ := (hinv u).mp ⟨reply', hmem⟩
          exact absurd hcommitted (hnot txn)
        · obtain ⟨hcall, _⟩ := Prod.mk.inj (List.mem_singleton.mp hmem)
          exact absurd (hthread.writeBatch_iff.mpr (ServiceCall.mk.inj hcall).2.symm) haction
      · rintro ⟨txn, hcommitted⟩
        exact absurd (hquiet u txn hcommitted) (hnot txn)
    · obtain rfl := hthread.writeBatch_iff.mp rfl
      exact ⟨fun _ => ⟨txn, hcommitted⟩, fun _ => ⟨reply, by simp⟩⟩
  · rw [hstore.other hu, ← hinv u]
    simp [hu]

/-- The row of a committed `Mkdirs`. -/
theorem CommittedMkdirs.row {fb : FlatBuffers} {trace : ServiceTrace} {s : ServiceState}
    {creations : List (TxnId × Dir)} {t : TxnId} {req : MkdirsRequest} {id : InodeID}
    {now : Int64} (h : CommittedMkdirs trace t req id now)
    (hrun : Run (serviceStep fb) (ServiceState.init .empty) trace s)
    (hinv : CreationsInv fb trace s creations) :
    ∃ parentDir, (t, MkdirsOp.newDir req parentDir id now) ∈ creations := by
  obtain ⟨txn, hcommitted⟩ := (writeBatch_iff_committed hrun t).mp h.writeBatch
  obtain ⟨⟨_, dir⟩, hmem, rfl⟩ := List.mem_map.mp (hinv.complete t txn hcommitted)
  obtain ⟨req', rest, parentDir, now', _, hthread, _, hids, htimes, hrow⟩ := hinv.wrote _ dir hmem
  obtain ⟨thread, hsome, hrequest⟩ := (accepted_run hrun _ _).mpr h.accept
  have hreq : req' = req := by
    rw [hthread] at hsome
    obtain rfl := Option.some.inj hsome
    exact Request.mkdirs.inj hrequest
  have hid : id = dir.id := List.mem_singleton.mp (hids ▸ mem_idsOf.mpr h.next)
  have hnow : now = now' := List.mem_singleton.mp (htimes ▸ mem_timesOf.mpr h.nowNs)
  refine ⟨parentDir, ?_⟩
  rw [← hreq, hid, hnow, ← hrow]
  exact hmem

/-- Every row was written by a committed `Mkdirs`. -/
theorem CreationsInv.committedMkdirs {fb : FlatBuffers} {trace : ServiceTrace} {s : ServiceState}
    {creations : List (TxnId × Dir)} {dir : Dir} (h : CreationsInv fb trace s creations)
    (hrun : Run (serviceStep fb) (ServiceState.init .empty) trace s)
    (hdir : dir ∈ rowsOf creations) :
    ∃ t req parentDir now, CommittedMkdirs trace t req dir.id now ∧
      dir = MkdirsOp.newDir req parentDir dir.id now := by
  obtain ⟨⟨t, _⟩, ht, rfl⟩ := List.mem_map.mp hdir
  obtain ⟨req, rest, parentDir, now, txn, hthread, hcommitted, hids, htimes, hrow⟩ :=
    h.wrote t _ ht
  refine ⟨t, req, parentDir, now, ⟨?_, ?_, ?_, ?_⟩, hrow⟩
  · exact (accepted_run hrun t _).mp ⟨_, hthread, rfl⟩
  · exact mem_idsOf.mp (by simp [hids])
  · exact mem_timesOf.mp (by simp [htimes])
  · exact (writeBatch_iff_committed hrun t).mpr ⟨txn, hcommitted⟩

/-- The handler of `u` runs, and its transaction, if it still has one, reads from
`db`. -/
def ReadsFrom (u : TxnId) (db : Database) (s : ServiceState) : Prop :=
  (∃ req rest, s.thread u = some (.running req rest)) ∧
    ∀ session txn, s.kv.session u = some session → session.txn? = some txn → txn.snapshot = db

section ReadsFrom

variable {fb : FlatBuffers} {s s' : ServiceState} {t u : TxnId} {event : Event} {reply : Reply}

theorem readsFrom_takeSnapshot
    (h : serviceStep fb s ⟨u, .takeSnapshot⟩ = some (s', reply)) :
    ReadsFrom u s.kv.store.db s' := by
  obtain ⟨action, thread', hthread, hstore, hself, _⟩ := serviceStep_inv h
  generalize s.thread u = thread at hthread
  cases hthread with
  | takeSnapshot req reply =>
    refine ⟨⟨_, _, hself⟩, fun session txn hsession htxn => ?_⟩
    obtain ⟨session₁, hstep, hself', _⟩ := kvStep_inv hstore
    obtain rfl := Option.some.inj (hself'.symm.trans hsession)
    generalize s.kv.session u = session₀ at hstep
    generalize s'.kv.store = store' at hstep
    cases hstep
    obtain rfl := Option.some.inj htxn
    rfl
  | @call req op k event action haction reply =>
    rcases op with (_ | _) | _ | _ | _ | _ | _ <;> cases haction

/-- A running handler does not take another snapshot. -/
theorem ThreadStep.action_ne_takeSnapshot {req : Request} {rest : HandlerM Response}
    {action : Option Action} {thread' : Thread}
    (h : ThreadStep fb (some (.running req rest)) event action reply thread') :
    action ≠ some .takeSnapshot := by
  rintro rfl
  cases h with
  | @call _ op k _ _ haction _ =>
    unfold Operation.action at haction
    split at haction <;> cases haction

theorem ReadsFrom.step {db : Database} (h : ReadsFrom u db s)
    (hs : serviceStep fb s ⟨t, event⟩ = some (s', reply)) : ReadsFrom u db s' := by
  obtain ⟨⟨req, rest, hrunning⟩, hsnapshot⟩ := h
  obtain ⟨action, thread', hthread, hstore, hself, hother⟩ := serviceStep_inv hs
  refine ⟨?_, fun session txn hsession htxn => ?_⟩
  · by_cases hu : u = t
    · subst hu
      rw [hrunning] at hthread
      rw [hself]
      cases hthread <;> exact ⟨_, _, rfl⟩
    · exact ⟨req, rest, (hother u hu).trans hrunning⟩
  · rcases hstore.snapshot_cases hsession htxn with ⟨rfl, haction, _⟩ |
      ⟨session₀, txn₀, hs₀, ht₀, hsame⟩
    · rw [hrunning] at hthread
      exact absurd haction hthread.action_ne_takeSnapshot
    · exact hsame.trans (hsnapshot session₀ txn₀ hs₀ ht₀)

/-- A transaction reads from the database at the moment of its snapshot. -/
theorem readsFrom_run {s₀ : ServiceState} {after : ServiceTrace}
    (hstep : serviceStep fb s₀ ⟨u, .takeSnapshot⟩ = some (s, reply))
    (hrun : Run (serviceStep fb) s after s') : ReadsFrom u s₀.kv.store.db s' :=
  hrun.invariant (P := fun _ s => ReadsFrom u s₀.kv.store.db s) (readsFrom_takeSnapshot hstep)
    fun _ _ _ _ _ _ hinv hs => hinv.step hs

end ReadsFrom

/-- Fresh ids and non-empty names are properties of every part of a trace. -/
theorem FreshIds.of_append {before after : ServiceTrace} (h : FreshIds (before ++ after)) :
    FreshIds before := by
  rw [FreshIds, handedOut, List.flatMap_append] at h
  exact ⟨h.1.of_append_left, fun hmem => h.2 (List.mem_append_left _ hmem)⟩

theorem NonemptyNames.of_append {before after : ServiceTrace}
    (h : NonemptyNames (before ++ after)) : NonemptyNames before :=
  fun e he => h e (List.mem_append_left _ he)

/-- In every run with fresh ids and non-empty names: a transaction whose snapshot is
taken after a `Mkdirs` has committed reads the directory with the parent, name, id
and times of this `Mkdirs`, at any later moment. -/
theorem read_of_committedMkdirs {fb : FlatBuffers} {before after : ServiceTrace}
    {s : ServiceState} {t u : TxnId} {reply : Reply}
    (h : Run (serviceStep fb) (ServiceState.init .empty)
      (before ++ (⟨u, .takeSnapshot⟩, reply) :: after) s)
    (hfresh : FreshIds (before ++ (⟨u, .takeSnapshot⟩, reply) :: after))
    (hnames : NonemptyNames (before ++ (⟨u, .takeSnapshot⟩, reply) :: after))
    {req : MkdirsRequest} {id : InodeID} {now : Int64}
    (hcommitted : CommittedMkdirs before t req id now) {session : Session} {txn : Txn}
    (hsession : s.kv.session u = some session) (htxn : session.txn? = some txn)
    (env : Env) (henv : ∀ op, env.fault op = none) :
    ∃ dir, ((KVDirTable.read fb id).lift.exec (handle env) ⟨s.kv.store, txn⟩).1 =
        .ok (.ok (some dir)) ∧
      dir.parentId = ⟨req.parentId⟩ ∧ dir.name = req.name ∧ dir.id = id ∧
      dir.ctimeInNs = now ∧ dir.mtimeInNs = now ∧ dir.atimeInNs = now := by
  obtain ⟨s₁, s₂, hbefore, hstep, hafter⟩ := h.step_at
  obtain ⟨creations, hinv⟩ := creationsInv_run hbefore
  obtain ⟨parentDir, hrow⟩ := hcommitted.row hbefore hinv
  have hdir : MkdirsOp.newDir req parentDir id now ∈ rowsOf creations :=
    List.mem_map_of_mem hrow
  have hsnapshot : txn.snapshot = dbOf fb (rowsOf creations) :=
    ((readsFrom_run hstep hafter).2 session txn hsession htxn).trans hinv.db_eq
  have hname : req.name ≠ [] := hinv.name_ne_nil hbefore hnames.of_append _ hdir
  have hread : ask (dbOf fb (rowsOf creations))
      (KVDirTable.read fb (MkdirsOp.newDir req parentDir id now).id) =
        .ok (.ok (some { MkdirsOp.newDir req parentDir id now with acl := Acl.zero })) :=
    ask_read_dbOf (hinv.created hfresh.of_append) hdir hname
  obtain ⟨readSet, hexec⟩ := exec_lift henv (KVDirTable.read fb id) ⟨s.kv.store, txn⟩
  rw [hexec, hsnapshot]
  exact ⟨_, hread, rfl, rfl, rfl, rfl, rfl, rfl⟩

/-- A directory is created, then another one under the same parent and name, and a
third request takes its snapshot. -/
def sameNameTwice : List ServiceCall :=
  let mkdirs (t : TxnId) (id : UInt64) (now : Int64) : List ServiceCall :=
    [⟨t, .accept (.mkdirs ⟨1, ascii "a", 0x1ED, 0, 0⟩)⟩, ⟨t, .takeSnapshot⟩, ⟨t, .call none⟩,
     ⟨t, .next (.ok ⟨id⟩)⟩, ⟨t, .nowNs now⟩, ⟨t, .call none⟩, ⟨t, .call none⟩, ⟨t, .call none⟩,
     ⟨t, .call none⟩, ⟨t, .drawCommit⟩, ⟨t, .isConflictFree⟩, ⟨t, .writeBatch true⟩]
  mkdirs 0 2 70 ++ mkdirs 1 3 71 ++ [⟨2, .accept (.getInode ⟨some 2⟩)⟩]

/-- Its trace from the empty database. -/
def sameNameTwiceTrace : ServiceTrace :=
  ((replay (serviceStep .sample) (ServiceState.init .empty) sameNameTwice).map Prod.fst).getD []

/-- A transaction of the third request has its snapshot. -/
theorem sameNameTwiceTrace_run :
    ∃ s, Run (serviceStep .sample) (ServiceState.init .empty)
        (sameNameTwiceTrace ++ [(⟨2, .takeSnapshot⟩, .done)]) s ∧
      ((s.kv.session 2).bind Session.txn?).isSome = true :=
  exists_run_of_replay_eq (sameNameTwice ++ [⟨2, .takeSnapshot⟩])
    (fun s : ServiceState => ((s.kv.session 2).bind Session.txn?).isSome) rfl

theorem sameNameTwice_committed :
    CommittedMkdirs sameNameTwiceTrace 0 ⟨1, ascii "a", 0x1ED, 0, 0⟩ ⟨2⟩ 70 where
  accept := ⟨.version 1, .head _⟩
  next := ⟨.done, by decide⟩
  nowNs := ⟨.done, by decide⟩
  writeBatch := ⟨.done, by decide⟩

theorem read_sameNameTwice :
    ∃ (store : KVStore) (txn : Txn) (dir : Dir),
      ((KVDirTable.read .sample ⟨2⟩).lift.exec (handle ⟨.ok ⟨9⟩, 0, fun _ => none⟩)
        ⟨store, txn⟩).1 = .ok (.ok (some dir)) ∧
      dir.name = ascii "a" ∧ dir.id = ⟨2⟩ ∧ dir.ctimeInNs = 70 := by
  obtain ⟨s, hrun, htxn⟩ := sameNameTwiceTrace_run
  obtain ⟨txn, hbind⟩ := Option.isSome_iff_exists.mp htxn
  obtain ⟨session, hsession, htxn⟩ := Option.bind_eq_some_iff.mp hbind
  obtain ⟨dir, hread, _, hname, hid, hctime, _, _⟩ :=
    read_of_committedMkdirs hrun (by decide) (by decide) sameNameTwice_committed hsession htxn
      ⟨.ok ⟨9⟩, 0, fun _ => none⟩ (fun _ => rfl)
  exact ⟨s.kv.store, txn, dir, hread, hname, hid, hctime⟩

end RocketFS
