import RocketFS.Service.Durability

/-!
# `UNIQUE (parent_id, name)`

The schema of `DirTable` promises that a parent has at most one directory of a
name. `MkdirsOp` never reads the entry it is about to write, so nothing enforces
this: a second `Mkdirs` of a name succeeds, replaces the entry, and leaves the
inode of the first one behind, where no lookup finds it. Where no batch is written
over an existing entry, the promise holds in every state reached.

## Main definitions

* `UniqueNames` — no two directory records share parent and name, and a lookup of
  either field pair returns the id of its record
* `nameFree` — the entry a batch is about to write does not exist yet

## Main results

* `uniqueNames_of_nameFree` — runs in which every batch meets the condition
* `sameNameTwice_not_unique` — a run of two requests that does not
-/

namespace RocketFS

/-! ### Lookups -/

section Lookup

variable {fb : FlatBuffers} {db : Database} {parentId : UInt64} {name : Bytes}

theorem LookupOp.ask_run_dir {dir : Dir}
    (h : ask db (KVDEntView.read fb ⟨parentId⟩ name) = .ok (.ok (some (.inl dir)))) :
    ask db (LookupOp.run fb ⟨parentId, name⟩) =
      .ok { id := dir.id.val.toInt64, stat := some dir.stat } := by
  rw [LookupOp.run, ask_bind, h]
  rfl

/-- The lookup of an entry whose row was created. -/
theorem LookupOp.ask_run_dbOf {rows : List Dir} {dir : Dir}
    (h : rowOfEntry rows (DEntSerde.serKey ⟨parentId⟩ name) = some dir) (hname : dir.name ≠ []) :
    ask (dbOf fb rows) (LookupOp.run fb ⟨parentId, name⟩) =
      .ok { id := dir.id.val.toInt64,
            stat := some (Dir.stat ⟨dir.parentId, dir.name, dir.id, Acl.zero, 0, 0, 0⟩) } := by
  have hget : (dbOf fb rows).get kDEntCFIndex (DEntSerde.serKey ⟨parentId⟩ name) =
      some (DEntSerde.serValDir fb dir) := by
    rw [get_dent_dbOf, h, Option.map_some]
  exact ask_run_dir (KVDEntView.ask_read_some hget (DEntSerde.deVal_serValDir fb dir hname))

end Lookup

/-! ### The property and the condition -/

/-- No two directory records have the same parent and name, and looking up the
parent and name of a record finds its id. -/
structure UniqueNames (fb : FlatBuffers) (db : Database) : Prop where
  unique : ∀ i j val val' dir dir',
    db.get kInodeCFIndex (InodeSerde.serKey i) = some val →
    db.get kInodeCFIndex (InodeSerde.serKey j) = some val' →
    InodeSerde.deVal fb val = .ok (.inl dir) → InodeSerde.deVal fb val' = .ok (.inl dir') →
    dir.parentId = dir'.parentId → dir.name = dir'.name → i = j
  lookup : ∀ i val dir, db.get kInodeCFIndex (InodeSerde.serKey i) = some val →
    InodeSerde.deVal fb val = .ok (.inl dir) → i ≠ kRootInodeID →
      ∃ resp, ask db (LookupOp.run fb ⟨dir.parentId.val, dir.name⟩) = .ok resp ∧
        resp.errorCode = 0 ∧ resp.id = i.val.toInt64

/-- The entry is there. -/
def NameTaken (db : Database) (req : MkdirsRequest) : Prop :=
  (db.get kDEntCFIndex (DEntSerde.serKey ⟨req.parentId⟩ req.name)).isSome

/-- The condition on a step: a batch is written only where its entry does not exist
yet. -/
def nameFree (s : ServiceState) (c : ServiceCall) : Bool :=
  match c.event, (s.thread c.thread).map Thread.request with
  | .writeBatch true, some (.mkdirs req) =>
    (s.kv.store.db.get kDEntCFIndex (DEntSerde.serKey ⟨req.parentId⟩ req.name)).isNone
  | _, _ => true

/-- What a thread has answered to its `Mkdirs`. -/
def mkdirsAnswer (s : ServiceState) (t : TxnId) : Option MkdirsResponse :=
  match s.thread t with
  | some (.running (.mkdirs _) (.done (.ok (.mkdirs resp)))) => some resp
  | _ => none

/-- The thread has answered its `Mkdirs` with success. -/
def AnsweredSuccess (s : ServiceState) (t : TxnId) : Prop :=
  ∃ resp, mkdirsAnswer s t = some resp ∧ resp.errorCode = 0

/-! ### Rows with distinct names -/

section DbOf

variable {fb : FlatBuffers} {rows : List Dir} {dir : Dir}

/-- A record that decodes to a directory is the record of a row with a name. -/
theorem row_of_record {i : InodeID} {val : Bytes}
    (hval : (dbOf fb rows).get kInodeCFIndex (InodeSerde.serKey i) = some val)
    (hdir : InodeSerde.deVal fb val = .ok (.inl dir)) :
    ∃ row ∈ rows, row.id = i ∧ row.place = dir.place ∧ row.name ≠ [] := by
  rw [get_inode_dbOf] at hval
  obtain ⟨row, hrow, rfl⟩ := Option.map_eq_some_iff.mp hval
  obtain ⟨hmem, hkey⟩ := rowOfKey_mem hrow
  -- an empty name is packed as no string, which does not decode
  have hname : row.name ≠ [] := by
    intro hnil
    simp [InodeSerde.deVal, InodeSerde.serValDir, fb.getInode_finish, Fb.DirT.pack,
      Fb.packString, hnil] at hdir
  rw [InodeSerde.deVal_serValDir fb row hname] at hdir
  obtain rfl := Sum.inl.inj (Except.ok.inj hdir)
  exact ⟨row, hmem, (InodeSerde.serKey_inj.mp hkey).symm, rfl, hname⟩

theorem nameTaken_dbOf {req : MkdirsRequest} :
    NameTaken (dbOf fb rows) req ↔ ∃ row ∈ rows, row.place = (⟨req.parentId⟩, req.name) := by
  rw [NameTaken, get_dent_dbOf, Option.isSome_map]
  constructor
  · intro h
    obtain ⟨row, hrow⟩ := Option.isSome_iff_exists.mp h
    obtain ⟨hmem, hkey⟩ := rowOfEntry_mem hrow
    obtain ⟨hparent, hname⟩ := DEntSerde.serKey_inj.mp hkey
    exact ⟨row, hmem, Prod.ext hparent.symm hname.symm⟩
  · rintro ⟨row, hmem, hplace⟩
    obtain ⟨hparent, hname⟩ := Prod.mk.inj hplace
    by_contra hnone
    rw [Bool.not_eq_true, Option.isSome_eq_false_iff, Option.isNone_iff_eq_none] at hnone
    exact absurd (lastRow_eq_none.mp hnone row hmem) (by simp [hparent, hname])

/-- Rows with distinct places satisfy the promise. -/
theorem uniqueNames_dbOf (hplaces : (rows.map Dir.place).Nodup) :
    UniqueNames fb (dbOf fb rows) where
  unique i j val val' dir dir' hval hval' hdir hdir' hparent hname := by
    obtain ⟨row, hrow, rfl, hplace, _⟩ := row_of_record hval hdir
    obtain ⟨row', hrow', rfl, hplace', _⟩ := row_of_record hval' hdir'
    have heq : row.place = row'.place := by
      rw [hplace, hplace']
      exact Prod.ext hparent hname
    rw [List.inj_on_of_nodup_map hplaces hrow hrow' heq]
  lookup i val dir hval hdir _ := by
    obtain ⟨row, hrow, rfl, hplace, hname⟩ := row_of_record hval hdir
    obtain ⟨hparent, hname'⟩ : row.parentId = dir.parentId ∧ row.name = dir.name :=
      Prod.mk.inj hplace
    have hentry : rowOfEntry rows (DEntSerde.serKey dir.parentId dir.name) = some row := by
      refine lastRow_of_unique hrow (by simp [hparent, hname']) fun r hr heq => ?_
      obtain ⟨hp, hn⟩ := DEntSerde.serKey_inj.mp (by simpa using heq)
      refine List.inj_on_of_nodup_map hplaces hr hrow ?_
      exact Prod.ext (hp.symm.trans hparent.symm) (hn.symm.trans hname'.symm)
    exact ⟨_, LookupOp.ask_run_dbOf hentry hname, rfl, rfl⟩

end DbOf

/-! ### Runs that write no existing name -/

section Runs

variable {fb : FlatBuffers} {trace before after : ServiceTrace} {s s₁ s' : ServiceState}
  {t : TxnId} {event : Event} {reply : Reply} {creations : List (TxnId × Dir)}

/-- A step does not change the request of a thread. -/
theorem ThreadStep.request_eq {thread thread' : Thread} {action : Option Action}
    (h : ThreadStep fb (some thread) event action reply thread') :
    thread'.request = thread.request := by
  cases h <;> rfl

/-- A batch that is written over an existing entry does not meet the condition. -/
theorem not_nameFree {req : MkdirsRequest}
    (hrequest : (s.thread t).map Thread.request = some (.mkdirs req))
    (htaken : NameTaken s.kv.store.db req) : ¬ nameFree s ⟨t, .writeBatch true⟩ := by
  intro hfree
  have hnone : (s.kv.store.db.get kDEntCFIndex
      (DEntSerde.serKey ⟨req.parentId⟩ req.name)).isNone := by
    simpa [nameFree, hrequest] using hfree
  rw [Option.isNone_iff_eq_none] at hnone
  rw [NameTaken, hnone] at htaken
  cases htaken

/-- Under the condition, the row a batch adds has a place of its own. -/
theorem CreationsInv.place_new (h : CreationsInv fb trace s creations) {dir : Dir}
    (hcond : nameFree s ⟨t, .writeBatch true⟩)
    (hs : serviceStep fb s ⟨t, .writeBatch true⟩ = some (s', reply))
    (h' : CreationsInv fb (trace ++ [(⟨t, .writeBatch true⟩, reply)]) s'
      (creations ++ [(t, dir)])) : dir.place ∉ (rowsOf creations).map Dir.place := by
  intro hmem
  obtain ⟨row, hrow, hplace⟩ := List.mem_map.mp hmem
  obtain ⟨req, rest, parentDir, now, txn, hthread', _, _, _, hdir⟩ :=
    h'.wrote t dir (by simp)
  -- the request of the thread is the one it had before the step
  obtain ⟨action, thread', hthread, _, hself, _⟩ := serviceStep_inv hs
  have hrequest : (s.thread t).map Thread.request = some (.mkdirs req) := by
    obtain rfl := Option.some.inj (hself.symm.trans hthread')
    generalize s.thread t = thread at hthread
    cases hthread
    rfl
  refine not_nameFree hrequest ?_ hcond
  rw [h.db_eq, nameTaken_dbOf]
  exact ⟨row, hrow, by rw [hplace, hdir]; rfl⟩

/-- The places of the rows stay distinct. -/
theorem places_run (h : Run (guarded (serviceStep fb) nameFree) (ServiceState.init .empty)
    trace s) : ∃ creations, CreationsInv fb trace s creations ∧
      ((rowsOf creations).map Dir.place).Nodup := by
  refine h.invariant (P := fun trace s => ∃ creations, CreationsInv fb trace s creations ∧
    ((rowsOf creations).map Dir.place).Nodup) ⟨[], creationsInv_init fb, List.nodup_nil⟩ ?_
  rintro trace s ⟨t, event⟩ s' reply hrun ⟨creations, hinv, hnodup⟩ hstep
  obtain ⟨hcond, hs⟩ := guarded_eq_some.mp hstep
  have hthreads := threadsInv_run hrun.of_guarded
  rcases hinv.step hthreads hs with ⟨_, hnext⟩ | ⟨rfl, dir, hnext⟩
  · exact ⟨creations, hnext, hnodup⟩
  · refine ⟨_, hnext, ?_⟩
    have hnew := hinv.place_new hcond hs hnext
    rw [rowsOf, List.map_append, List.map_append, List.map_singleton, List.map_singleton,
      ← List.concat_eq_append]
    exact hnodup.concat hnew

/-- A name that is taken stays taken. -/
theorem NameTaken.step {req : MkdirsRequest}
    (hrun : Run (serviceStep fb) (ServiceState.init .empty) trace s)
    (h : NameTaken s.kv.store.db req)
    (hs : serviceStep fb s ⟨t, event⟩ = some (s', reply)) : NameTaken s'.kv.store.db req := by
  obtain ⟨creations, hinv⟩ := creationsInv_run hrun
  rw [hinv.db_eq] at h
  rcases hinv.step (threadsInv_run hrun) hs with ⟨_, hnext⟩ | ⟨_, dir, hnext⟩
  · rwa [hnext.db_eq]
  · obtain ⟨row, hrow, hplace⟩ := nameTaken_dbOf.mp h
    rw [hnext.db_eq, nameTaken_dbOf, rowsOf, List.map_append]
    exact ⟨row, List.mem_append_left _ hrow, hplace⟩

/-- Under the condition, a `Mkdirs` whose name is taken never writes its batch. -/
theorem not_committed_of_taken {req : MkdirsRequest}
    (hbefore : Run (serviceStep fb) (ServiceState.init .empty) before s₁)
    (hrequest : (s₁.thread t).map Thread.request = some (.mkdirs req))
    (htaken : NameTaken s₁.kv.store.db req)
    (hnot : ∀ txn, s₁.kv.session t ≠ some (.committed txn))
    (hafter : Run (guarded (serviceStep fb) nameFree) s₁ after s) :
    ∀ txn, s.kv.session t ≠ some (.committed txn) := by
  have hinv : (s.thread t).map Thread.request = some (.mkdirs req) ∧
      NameTaken s.kv.store.db req ∧ ∀ txn, s.kv.session t ≠ some (.committed txn) := by
    refine hafter.invariant (P := fun _ s =>
      (s.thread t).map Thread.request = some (.mkdirs req) ∧ NameTaken s.kv.store.db req ∧
        ∀ txn, s.kv.session t ≠ some (.committed txn)) ⟨hrequest, htaken, hnot⟩ ?_
    rintro trace s ⟨u, event⟩ s' reply hrun ⟨hrequest, htaken, hnot⟩ hstep
    obtain ⟨hcond, hs⟩ := guarded_eq_some.mp hstep
    obtain ⟨action, thread', hthread, hstore, hself, hother⟩ := serviceStep_inv hs
    refine ⟨?_, htaken.step (hbefore.append hrun.of_guarded) hs, fun txn hcommitted => ?_⟩
    · by_cases hu : t = u
      · subst hu
        obtain ⟨thread, hsome, hreq⟩ := Option.map_eq_some_iff.mp hrequest
        rw [hsome] at hthread
        rw [hself, Option.map_some, hthread.request_eq, hreq]
      · rw [hother t hu, hrequest]
    · -- only a write commits, and the guard rules out that `t` writes over a taken name
      rcases hstore.db_cases with ⟨_, _, hquiet⟩ | ⟨_, _, rfl, _, _⟩
      · exact hnot txn (hquiet t txn hcommitted)
      · by_cases hu : t = u
        · subst hu
          obtain rfl := hthread.writeBatch_iff.mp rfl
          exact not_nameFree hrequest htaken hcond
        · exact hnot txn (hstore.other hu ▸ hcommitted)
  exact hinv.2.2

/-- A `Mkdirs` that has answered success has written its batch. -/
theorem ThreadsInv.committed_of_success (h : ThreadsInv fb trace s)
    (hsuccess : AnsweredSuccess s t) : ∃ txn, s.kv.session t = some (.committed txn) := by
  obtain ⟨resp, hanswer, hcode⟩ := hsuccess
  obtain ⟨req, hthread⟩ : ∃ req, s.thread t =
      some (.running (.mkdirs req) (.done (.ok (.mkdirs resp)))) := by
    unfold mkdirsAnswer at hanswer
    split at hanswer
    · rename_i req resp' hthread
      obtain rfl := Option.some.inj hanswer
      exact ⟨req, hthread⟩
    · cases hanswer
  have hinv := h.thread t
  rw [hthread] at hinv
  generalize s.kv.session t = session at hinv ⊢
  -- a handler that leaves its transaction open does not answer success
  match session, hinv with
  | some (.live txn), hinv => exact absurd (hinv hcode).1 (by simp [progressOf])
  | some (.committing txn), ⟨⟨k, hcall⟩, _⟩ => cases hcall
  | some (.validated txn), ⟨⟨k, hcall⟩, _⟩ => cases hcall
  | some (.committed txn), _ => exact ⟨txn, rfl⟩
  | some (.thrown crash), ⟨_, hdone⟩ => cases hdone

end Runs

/-- In every run whose batches are written only where their entry does not exist
yet: parent and name are unique and lookups find every directory, and a `Mkdirs`
whose parent and name already exist neither writes its batch nor answers success,
then or later. -/
theorem uniqueNames_of_nameFree {fb : FlatBuffers} {trace : ServiceTrace} {s : ServiceState}
    (h : Run (guarded (serviceStep fb) nameFree) (ServiceState.init .empty) trace s) :
    UniqueNames fb s.kv.store.db ∧
      ∀ before after s₁ t req, trace = before ++ after →
        Run (guarded (serviceStep fb) nameFree) (ServiceState.init .empty) before s₁ →
        Run (guarded (serviceStep fb) nameFree) s₁ after s →
        (s₁.thread t).map Thread.request = some (.mkdirs req) →
        NameTaken s₁.kv.store.db req → (∀ txn, s₁.kv.session t ≠ some (.committed txn)) →
          (∀ txn, s.kv.session t ≠ some (.committed txn)) ∧ ¬ AnsweredSuccess s t := by
  constructor
  · obtain ⟨creations, hinv, hplaces⟩ := places_run h
    rw [hinv.db_eq]
    exact uniqueNames_dbOf hplaces
  · intro before after s₁ t req _ hbefore hafter hrequest htaken hnot
    have hfinal := not_committed_of_taken hbefore.of_guarded hrequest htaken hnot hafter
    refine ⟨hfinal, fun hsuccess => ?_⟩
    obtain ⟨txn, hcommitted⟩ := (threadsInv_run h.of_guarded).committed_of_success hsuccess
    exact hfinal txn hcommitted

/-- The second request of `sameNameTwice` arrives when its name is taken. It can do all but
write its batch. -/
theorem uniqueNames_secondHeldBack :
    ∃ s₁ s, Run (guarded (serviceStep .sample) nameFree) (ServiceState.init .empty)
        (sameNameTwiceTrace.take 13) s₁ ∧
      NameTaken s₁.kv.store.db ⟨1, ascii "a", 0x1ED, 0, 0⟩ ∧
      Run (guarded (serviceStep .sample) nameFree) s₁ ((sameNameTwiceTrace.take 23).drop 13) s ∧
      UniqueNames .sample s.kv.store.db ∧ (∀ txn, s.kv.session 1 ≠ some (.committed txn)) ∧
      ¬ AnsweredSuccess s 1 := by
  obtain ⟨s₁, s, hbefore, hstate, hafter⟩ : ∃ s₁ s,
      Run (guarded (serviceStep .sample) nameFree) (ServiceState.init .empty)
        (sameNameTwiceTrace.take 13) s₁ ∧
      ((s₁.thread 1).map Thread.request, (s₁.kv.store.db.get kDEntCFIndex
          (DEntSerde.serKey ⟨1⟩ (ascii "a"))).isSome, s₁.kv.session 1) =
        (some (.mkdirs ⟨1, ascii "a", 0x1ED, 0, 0⟩), true, some (.drawn 3)) ∧
      Run (guarded (serviceStep .sample) nameFree) s₁ ((sameNameTwiceTrace.take 23).drop 13) s :=
    exists_runs_of_replay_eq (sameNameTwice.take 13) ((sameNameTwice.take 23).drop 13)
      (fun s : ServiceState => ((s.thread 1).map Thread.request, (s.kv.store.db.get kDEntCFIndex
        (DEntSerde.serKey ⟨1⟩ (ascii "a"))).isSome, s.kv.session 1)) rfl
  obtain ⟨hrequest, hstate⟩ := Prod.mk.inj hstate
  obtain ⟨htaken, hsession⟩ := Prod.mk.inj hstate
  obtain ⟨hunique, hheld⟩ := uniqueNames_of_nameFree (hbefore.append hafter)
  have hnot : ∀ txn, s₁.kv.session 1 ≠ some (.committed txn) := by
    intro txn
    rw [hsession]
    simp
  exact ⟨s₁, s, hbefore, htaken, hafter, hunique,
    hheld _ _ s₁ 1 _ rfl hbefore hafter hrequest htaken hnot⟩

/-- What the two requests of `sameNameTwice` leave behind. -/
theorem sameNameTwice_state :
    ∃ s, Run (serviceStep .sample) (ServiceState.init .empty) sameNameTwiceTrace s ∧
      (((mkdirsAnswer s 0).map (·.errorCode), (mkdirsAnswer s 1).map (·.errorCode)),
        (s.kv.store.db.get kInodeCFIndex (InodeSerde.serKey ⟨2⟩),
          s.kv.store.db.get kInodeCFIndex (InodeSerde.serKey ⟨3⟩))) =
      ((some 0, some 0),
        (some (InodeSerde.serValDir .sample
            (MkdirsOp.newDir ⟨1, ascii "a", 0x1ED, 0, 0⟩ rootDir ⟨2⟩ 70)),
          some (InodeSerde.serValDir .sample
            (MkdirsOp.newDir ⟨1, ascii "a", 0x1ED, 0, 0⟩ rootDir ⟨3⟩ 71)))) :=
  exists_run_of_replay_eq sameNameTwice _ rfl

/-- Two requests for the same parent and name, one after the other: both answer
success, and there are two inodes of that parent and name. -/
theorem sameNameTwice_not_unique :
    FreshIds sameNameTwiceTrace ∧
      ∃ s, Run (serviceStep .sample) (ServiceState.init .empty) sameNameTwiceTrace s ∧
        AnsweredSuccess s 0 ∧ AnsweredSuccess s 1 ∧ ¬ UniqueNames .sample s.kv.store.db := by
  refine ⟨by decide, ?_⟩
  obtain ⟨s, hrun, hstate⟩ := sameNameTwice_state
  obtain ⟨hanswers, hinodes⟩ := Prod.mk.inj hstate
  obtain ⟨hfirst, hsecond⟩ := Prod.mk.inj hanswers
  obtain ⟨hinode, hinode'⟩ := Prod.mk.inj hinodes
  refine ⟨s, hrun, Option.map_eq_some_iff.mp hfirst, Option.map_eq_some_iff.mp hsecond, ?_⟩
  intro hunique
  have heq := hunique.unique ⟨2⟩ ⟨3⟩ _ _ _ _ hinode hinode'
    (InodeSerde.deVal_serValDir .sample _ (by decide))
    (InodeSerde.deVal_serValDir .sample _ (by decide)) rfl rfl
  exact absurd heq (by decide)

end RocketFS
