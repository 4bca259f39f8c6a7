import RocketFS.KV.History

/-!
# Atomic snapshot visibility

What a transaction reads is decided when it takes its snapshot: every value it
reads is the lookup in the database made of the batches written before that
moment. The invariant compares the state of the store with the trace: the
database is the fold of the batches in the order of their writes, and the
snapshot of a transaction is the fold of the batches that are visible to it.

## Main definitions

* `TxnInv`, `SessionInv` — what the trace says about a transaction object
* `KVInv` — what it says about the store and all sessions

## Main results

* `kvInv_run` — the invariant holds along every run
* `reads_eq_snapshot` — every point and range read is answered by the batches
  written before the snapshot
-/

namespace RocketFS

/-- A call is answered by the snapshot. -/
theorem CallStep.answered {txn txn' : Txn} {op : TxnOp} {reply : Reply}
    (h : CallStep txn op txn' reply) : Answered txn.snapshot (.call op, reply) := by
  cases h with
  | get readSet result hanswer =>
    cases result with
    | ok value => exact hanswer value rfl
    | error status => trivial
  | getRange result hanswer =>
    cases result with
    | ok values => exact hanswer values rfl
    | error status => trivial
  | put cf key value => trivial
  | del cf key => trivial

/-- The write set follows the history. -/
theorem CallStep.writeSet {txn txn' : Txn} {op : TxnOp} {reply : Reply} {history : History}
    (h : CallStep txn op txn' reply) (hw : txn.writeSet = writeSetOf history) :
    txn'.writeSet = writeSetOf (history ++ [(.call op, reply)]) := by
  cases h with
  | get readSet result _ => rw [writeSetOf_snoc_none rfl, ← hw]
  | getRange result _ => rw [writeSetOf_snoc_none rfl, ← hw]
  | put cf key value => rw [writeSetOf_snoc_some rfl, ← hw]
  | del cf key => rw [writeSetOf_snoc_some rfl, ← hw]

/-! ### The invariant -/

/-- What the trace says about a transaction object. -/
structure TxnInv (db₀ : Database) (trace : Trace) (t : TxnId) (txn : Txn) : Prop where
  snapped : Snapped t trace
  snapshot : txn.snapshot = dbAfter db₀ trace (visible t trace)
  writeSet : txn.writeSet = writeSetOf (historyOf t trace)

/-- What the trace says about a session. -/
def SessionInv (db₀ : Database) (trace : Trace) (t : TxnId) : Option Session → Prop
  | none | some (.drawn _) => ¬ Snapped t trace
  | some (.live txn) | some (.committing txn) | some (.validated txn) | some (.committed txn)
  | some (.aborted txn) => TxnInv db₀ trace t txn
  | some (.thrown _) => Snapped t trace

/-- What the trace of a run says about the state reached. -/
structure KVInv (db₀ : Database) (trace : Trace) (s : KVState) : Prop where
  db_eq : s.store.db = dbAfter db₀ trace (batchWrites trace)
  session : ∀ t, SessionInv db₀ trace t (s.session t)
  /-- The batch of a transaction is written once, as its last action. -/
  written : ∀ u ∈ batchWrites trace, ∃ txn, s.session u = some (.committed txn)
  nodup : (batchWrites trace).Nodup
  /-- Before its snapshot a transaction has only drawn its start version. -/
  idle : ∀ t, ¬ Snapped t trace → ∀ e ∈ historyOf t trace, e.1 = .drawStart
  reads : ∀ t, Snapped t trace →
    AgreesWith (historyOf t trace) (dbAfter db₀ trace (visible t trace))

theorem kvInv_init (db₀ : Database) : KVInv db₀ [] (KVState.init db₀) where
  db_eq := rfl
  session _ := by simp [KVState.init, SessionInv, Snapped]
  written _ hu := absurd hu List.not_mem_nil
  nodup := List.nodup_nil
  idle _ _ _ he := absurd he List.not_mem_nil
  reads _ hsnapped := by simp [Snapped] at hsnapped

/-! ### One step

A step of `t` extends the trace by one action. Everything the trace says about
the other transactions stays as it was, because the transactions whose batches
are already written take no further steps. -/

section Step

variable {db₀ : Database} {trace : Trace} {t u : TxnId} {action : Action} {reply : Reply}

theorem dbAfter_snoc_trace {order : List TxnId} (h : t ∉ order) :
    dbAfter db₀ (trace ++ [(⟨t, action⟩, reply)]) order = dbAfter db₀ trace order := by
  refine dbAfter_congr fun u hu => historyOf_snoc_of_ne ?_
  rintro rfl
  exact h hu

theorem dbAfter_visible_snoc (ht : t ∉ batchWrites trace) (hu : Snapped u trace) :
    dbAfter db₀ (trace ++ [(⟨t, action⟩, reply)])
        (visible u (trace ++ [(⟨t, action⟩, reply)])) =
      dbAfter db₀ trace (visible u trace) := by
  rw [visible_append_of_snapped hu, dbAfter_snoc_trace]
  exact fun hmem => ht ((visible_sublist u trace).subset hmem)

theorem snapped_snoc_of_ne (h : u ≠ t) :
    Snapped u (trace ++ [(⟨t, action⟩, reply)]) ↔ Snapped u trace := by
  simp [snapped_snoc, Ne.symm h]

/-- The step of another transaction. -/
theorem TxnInv.frame {txn : Txn} (h : TxnInv db₀ trace u txn) (hne : u ≠ t)
    (ht : t ∉ batchWrites trace) : TxnInv db₀ (trace ++ [(⟨t, action⟩, reply)]) u txn where
  snapped := h.snapped.append _
  snapshot := by rw [dbAfter_visible_snoc ht h.snapped, h.snapshot]
  writeSet := by rw [historyOf_snoc_of_ne hne, h.writeSet]

theorem SessionInv.frame {session : Option Session} (h : SessionInv db₀ trace u session)
    (hne : u ≠ t) (ht : t ∉ batchWrites trace) :
    SessionInv db₀ (trace ++ [(⟨t, action⟩, reply)]) u session := by
  unfold SessionInv at h ⊢
  split
  · exact mt (snapped_snoc_of_ne hne).mp h
  · exact mt (snapped_snoc_of_ne hne).mp h
  all_goals first
    | exact TxnInv.frame h hne ht
    | exact h.append _

/-- The transaction's own step, when the write set follows its history. -/
theorem TxnInv.snoc {txn txn' : Txn} (h : TxnInv db₀ trace t txn) (ht : t ∉ batchWrites trace)
    (hsnapshot : txn'.snapshot = txn.snapshot)
    (hwrite : txn'.writeSet = writeSetOf (historyOf t trace ++ [(action, reply)])) :
    TxnInv db₀ (trace ++ [(⟨t, action⟩, reply)]) t txn' where
  snapped := h.snapped.append _
  snapshot := by rw [dbAfter_visible_snoc ht h.snapped, hsnapshot, h.snapshot]
  writeSet := by rw [historyOf_snoc_self, hwrite]

/-- The transaction's own step, when it writes nothing. -/
theorem TxnInv.snoc_of_writeOf_none {txn txn' : Txn} (h : TxnInv db₀ trace t txn)
    (ht : t ∉ batchWrites trace) (haction : writeOf (action, reply) = none)
    (hsnapshot : txn'.snapshot = txn.snapshot) (hwriteSet : txn'.writeSet = txn.writeSet) :
    TxnInv db₀ (trace ++ [(⟨t, action⟩, reply)]) t txn' := by
  refine h.snoc ht hsnapshot ?_
  rw [writeSetOf_snoc_none haction, hwriteSet, h.writeSet]

theorem writeSetOf_idle {history : History} (h : ∀ e ∈ history, e.1 = .drawStart) :
    writeSetOf history = .empty := by
  have hnone : history.filterMap writeOf = [] := by
    rw [List.filterMap_eq_nil_iff]
    rintro ⟨action, reply⟩ he
    obtain rfl : action = .drawStart := h _ he
    rfl
  rw [writeSetOf, hnone, List.foldl_nil]

/-- The snapshot is the database at the moment it is taken. -/
theorem TxnInv.takeSnapshot {s : KVState} (h : KVInv db₀ trace s) (hsnapped : ¬ Snapped t trace)
    (ht : t ∉ batchWrites trace) (startVersion : ℤ) :
    TxnInv db₀ (trace ++ [(⟨t, .takeSnapshot⟩, reply)]) t
      (Txn.new s.store.db startVersion) where
  snapped := snapped_snoc.mpr (.inr rfl)
  snapshot := by
    rw [visible_snoc_snapshot hsnapped rfl, dbAfter_snoc_trace ht]
    exact h.db_eq
  writeSet := by
    rw [historyOf_snoc_self, writeSetOf_snoc_none rfl, writeSetOf_idle (h.idle t hsnapped)]
    rfl

end Step

/-- The session that takes a step has not written its batch. -/
theorem KVInv.not_written {db₀ : Database} {trace : Trace} {s : KVState} {t : TxnId}
    {action : Action} {reply : Reply} {session' : Session} {store' : KVStore}
    (h : KVInv db₀ trace s)
    (hstep : SessionStep s.store (s.session t) action reply session' store') :
    t ∉ batchWrites trace := by
  intro hmem
  obtain ⟨txn, hcommitted⟩ := h.written t hmem
  rw [hcommitted] at hstep
  cases hstep

/-- What a step does to the session that takes it. -/
theorem KVInv.session_step {db₀ : Database} {trace : Trace} {s : KVState} {t : TxnId}
    {action : Action} {reply : Reply} {session' : Session} {store' : KVStore}
    (h : KVInv db₀ trace s) (ht : t ∉ batchWrites trace)
    (hstep : SessionStep s.store (s.session t) action reply session' store') :
    SessionInv db₀ (trace ++ [(⟨t, action⟩, reply)]) t (some session') := by
  have hsession := h.session t
  generalize hs : s.session t = session at hsession hstep
  cases hstep with
  | drawStart => exact fun h' => hsession ((snapped_snoc.mp h').resolve_right (by simp))
  | takeSnapshot startVersion => exact TxnInv.takeSnapshot h hsession ht startVersion
  | call hcall =>
    exact TxnInv.snoc hsession ht hcall.snapshot (hcall.writeSet hsession.writeSet)
  | callThrew crash => exact hsession.snapped.append _
  | drawCommit txn => exact TxnInv.snoc_of_writeOf_none hsession ht rfl rfl rfl
  | conflictFree txn _ => exact TxnInv.snoc_of_writeOf_none hsession ht rfl rfl rfl
  | conflict txn _ => exact TxnInv.snoc_of_writeOf_none hsession ht rfl rfl rfl
  | checkThrew txn crash => exact hsession.snapped.append _
  | write txn => exact TxnInv.snoc_of_writeOf_none hsession ht rfl rfl rfl
  | writeThrew txn crash => exact hsession.snapped.append _

theorem answered_of_not_call (db : Database) {e : Action × Reply} (h : ∀ op, e.1 ≠ .call op) :
    Answered db e := by
  unfold Answered
  split
  · exact absurd rfl (h _)
  · exact absurd rfl (h _)
  · trivial

/-- An action is answered by the snapshot of the transaction that takes it. -/
theorem KVInv.answered {db₀ : Database} {trace : Trace} {s : KVState} {t : TxnId}
    {action : Action} {reply : Reply} {session' : Session} {store' : KVStore}
    (h : KVInv db₀ trace s)
    (hstep : SessionStep s.store (s.session t) action reply session' store') :
    Answered (dbAfter db₀ trace (visible t trace)) (action, reply) := by
  have hsession := h.session t
  generalize hs : s.session t = session at hsession hstep
  cases hstep
  case call txn txn' op hcall =>
    have hsnapshot : txn.snapshot = dbAfter db₀ trace (visible t trace) := hsession.snapshot
    rw [← hsnapshot]
    exact hcall.answered
  case callThrew txn op crash => cases op <;> trivial
  all_goals exact answered_of_not_call _ (by simp)

/-- Before the snapshot a session can only draw its start version. -/
theorem SessionInv.action_of_not_snapped {db₀ : Database} {trace : Trace} {t : TxnId}
    {store store' : KVStore} {session : Option Session} {session' : Session} {action : Action}
    {reply : Reply} (h : SessionInv db₀ trace t session)
    (hstep : SessionStep store session action reply session' store')
    (hsnapped : ¬ Snapped t trace) : action = .drawStart ∨ action = .takeSnapshot := by
  cases hstep
  case drawStart => exact .inl rfl
  case takeSnapshot => exact .inr rfl
  all_goals exact absurd h.snapped hsnapped

/-! ### The invariant under a step

One lemma for each field that a step can change. `hother` says that the other
sessions stay as they are, `ht` that the session that takes the step has not
written its batch yet. -/

section Fields

variable {db₀ : Database} {trace : Trace} {s s' : KVState} {t : TxnId} {action : Action}
  {reply : Reply} {session' : Session}

/-- The database stays the fold of the batches. -/
theorem KVInv.db_step (h : KVInv db₀ trace s) (ht : t ∉ batchWrites trace)
    (hstep : SessionStep s.store (s.session t) action reply session' s'.store) :
    s'.store.db = dbAfter db₀ (trace ++ [(⟨t, action⟩, reply)])
      (batchWrites (trace ++ [(⟨t, action⟩, reply)])) := by
  rcases hstep.db_cases with ⟨haction, hdb, _⟩ | ⟨txn, hsession, haction, _, hdb⟩
  · rw [batchWrites_snoc_of_ne haction, dbAfter_snoc_trace ht, hdb, h.db_eq]
  · -- the batch is the write set that the history of `t` has built
    have htxn : TxnInv db₀ trace t txn := by
      have := h.session t
      rwa [hsession] at this
    obtain rfl : action = .writeBatch true := haction
    rw [batchWrites_snoc_write rfl, dbAfter_snoc, dbAfter_snoc_trace ht, historyOf_snoc_self,
      writeSetOf_snoc_none rfl, ← htxn.writeSet, ← h.db_eq, hdb]

/-- A transaction whose batch is written stays committed. -/
theorem KVInv.written_step (h : KVInv db₀ trace s) (ht : t ∉ batchWrites trace)
    (hstep : SessionStep s.store (s.session t) action reply session' s'.store)
    (hself : s'.session t = some session') (hother : ∀ u, u ≠ t → s'.session u = s.session u)
    {u : TxnId} (hu : u ∈ batchWrites (trace ++ [(⟨t, action⟩, reply)])) :
    ∃ txn, s'.session u = some (.committed txn) := by
  rcases hstep.db_cases with ⟨haction, _⟩ | ⟨txn, _, haction, rfl, _⟩
  · rw [batchWrites_snoc_of_ne haction] at hu
    rw [hother u (fun heq => ht (heq ▸ hu))]
    exact h.written u hu
  · rw [batchWrites_snoc_write haction] at hu
    by_cases hne : u = t
    · exact ⟨txn, by rw [hne, hself]⟩
    · rw [hother u hne]
      exact h.written u ((List.mem_append.mp hu).resolve_right (by simpa using hne))

/-- No batch is written twice. -/
theorem KVInv.nodup_step (h : KVInv db₀ trace s) (ht : t ∉ batchWrites trace)
    (hstep : SessionStep s.store (s.session t) action reply session' s'.store) :
    (batchWrites (trace ++ [(⟨t, action⟩, reply)])).Nodup := by
  rcases hstep.db_cases with ⟨haction, _⟩ | ⟨txn, _, haction, _, _⟩
  · rw [batchWrites_snoc_of_ne haction]
    exact h.nodup
  · rw [batchWrites_snoc_write haction, ← List.concat_eq_append]
    exact h.nodup.concat ht

/-- A transaction without a snapshot has still only drawn its start version. -/
theorem KVInv.idle_step (h : KVInv db₀ trace s)
    (hstep : SessionStep s.store (s.session t) action reply session' s'.store) {u : TxnId}
    (hu : ¬ Snapped u (trace ++ [(⟨t, action⟩, reply)])) {e : Action × Reply}
    (he : e ∈ historyOf u (trace ++ [(⟨t, action⟩, reply)])) : e.1 = .drawStart := by
  have hbefore : ¬ Snapped u trace := fun hsn => hu (hsn.append _)
  by_cases hne : u = t
  · subst hne
    rw [historyOf_snoc_self] at he
    rcases List.mem_append.mp he with he | he
    · exact h.idle u hbefore e he
    · obtain rfl := List.mem_singleton.mp he
      -- `u` can draw or take its snapshot, and by `hu` it has not taken it
      refine ((h.session u).action_of_not_snapped hstep hbefore).resolve_right ?_
      rintro rfl
      exact hu (snapped_snoc.mpr (.inr rfl))
  · rw [historyOf_snoc_of_ne hne] at he
    exact h.idle u hbefore e he

/-- What a transaction reads stays answered by what is visible to it. -/
theorem KVInv.reads_step (h : KVInv db₀ trace s) (ht : t ∉ batchWrites trace)
    (hstep : SessionStep s.store (s.session t) action reply session' s'.store) {u : TxnId}
    (hu : Snapped u (trace ++ [(⟨t, action⟩, reply)])) :
    AgreesWith (historyOf u (trace ++ [(⟨t, action⟩, reply)]))
      (dbAfter db₀ (trace ++ [(⟨t, action⟩, reply)])
        (visible u (trace ++ [(⟨t, action⟩, reply)]))) := by
  intro e he
  by_cases hbefore : Snapped u trace
  · rw [dbAfter_visible_snoc ht hbefore]
    by_cases hne : u = t
    · subst hne
      rw [historyOf_snoc_self] at he
      rcases List.mem_append.mp he with he | he
      · exact h.reads u hbefore e he
      · obtain rfl := List.mem_singleton.mp he
        exact h.answered hstep
    · rw [historyOf_snoc_of_ne hne] at he
      exact h.reads u hbefore e he
  · -- the snapshot is being taken: nothing has been read yet
    obtain hsn := (snapped_snoc.mp hu).resolve_left hbefore
    obtain ⟨rfl, rfl⟩ := Call.mk.inj hsn
    rw [historyOf_snoc_self] at he
    refine answered_of_not_call _ fun op => ?_
    rcases List.mem_append.mp he with he | he
    · rw [h.idle t hbefore e he]
      simp
    · obtain rfl := List.mem_singleton.mp he
      simp

end Fields

/-- The invariant survives every step. -/
theorem KVInv.step {db₀ : Database} {trace : Trace} {s s' : KVState} {c : Call} {reply : Reply}
    (h : KVInv db₀ trace s) (hs : kvStep s c = some (s', reply)) :
    KVInv db₀ (trace ++ [(c, reply)]) s' := by
  obtain ⟨t, action⟩ := c
  obtain ⟨session', hstep, hself, hother⟩ := kvStep_inv hs
  have ht := h.not_written hstep
  constructor
  case db_eq => exact h.db_step ht hstep
  case session =>
    intro u
    by_cases hu : u = t
    · rw [hu, hself]
      exact h.session_step ht hstep
    · rw [hother u hu]
      exact (h.session u).frame hu ht
  case written =>
    intro u hu
    exact h.written_step ht hstep hself hother hu
  case nodup => exact h.nodup_step ht hstep
  case idle =>
    intro u hu e he
    exact h.idle_step hstep hu he
  case reads =>
    intro u hu
    exact h.reads_step ht hstep hu

/-- The invariant holds along every run. -/
theorem kvInv_run {db₀ : Database} {trace : Trace} {s : KVState}
    (h : Run kvStep (KVState.init db₀) trace s) : KVInv db₀ trace s :=
  h.invariant (kvInv_init db₀) fun _ _ _ _ _ _ hinv hs => hinv.step hs

/-! ### What a transaction reads -/

/-- The value of a key after a list of transactions: the last of them that wrote
the key decides. -/
theorem view_dbAfter (db : Database) (trace : Trace) (order : List TxnId) (k : CFKey) :
    (dbAfter db trace order).view k =
      order.foldl (fun value u => (lastWrite (historyOf u trace) k).getD value) (db.view k) := by
  induction order generalizing db with
  | nil => rfl
  | cons u rest ih =>
    have hu : (db.write (writeSetOf (historyOf u trace))).view k =
        (lastWrite (historyOf u trace) k).getD (db.view k) := by
      rw [Database.view_write, lookup_writeSetOf]
    rw [List.foldl_cons, ← hu]
    exact ih _

/-- The reads in the history of a transaction are answered by its snapshot. -/
theorem KVInv.answered_of_mem {db₀ : Database} {trace : Trace} {s : KVState} {t : TxnId}
    (h : KVInv db₀ trace s) {op : TxnOp} {reply : Reply} (hmem : (⟨t, .call op⟩, reply) ∈ trace) :
    Answered (dbAfter db₀ trace (visible t trace)) (.call op, reply) := by
  have hhistory : (Action.call op, reply) ∈ historyOf t trace := mem_historyOf.mpr hmem
  by_cases hsnapped : Snapped t trace
  · exact h.reads t hsnapped _ hhistory
  · exact absurd (h.idle t hsnapped _ hhistory) (by simp)

/-- Every value a transaction reads, by key or by range, is the lookup in one
database: the initial one with the final write sets of the transactions whose batch
was written before the snapshot, applied in the order of those writes. -/
theorem reads_eq_snapshot {db₀ : Database} {trace : Trace} {s : KVState}
    (h : Run kvStep (KVState.init db₀) trace s) (t : TxnId) :
    ∃ snapshot : Database,
      (∀ cf key, snapshot.get cf key = (visible t trace).foldl
        (fun value u => (lastWrite (historyOf u trace) (cfKey cf key)).getD value)
        (db₀.get cf key)) ∧
      (∀ fault cf key exclude value,
        (⟨t, .call (.get fault cf key exclude)⟩, .value (.ok value)) ∈ trace →
          value = snapshot.get cf key) ∧
      (∀ fault cf startKey endKey limit exclude values,
        (⟨t, .call (.getRange fault cf startKey endKey limit exclude)⟩,
            .values (.ok values)) ∈ trace →
          values = snapshot.range cf startKey endKey limit) := by
  refine ⟨dbAfter db₀ trace (visible t trace), ?_, ?_, ?_⟩
  · intro cf key
    exact view_dbAfter db₀ trace (visible t trace) (cfKey cf key)
  · intro fault cf key exclude value hmem
    exact (kvInv_run h).answered_of_mem hmem
  · intro fault cf startKey endKey limit exclude values hmem
    exact (kvInv_run h).answered_of_mem hmem

/-- A writer that puts a key twice and deletes another, between a reader that took
its snapshot before and one that took it after. -/
def interleavedReaders : List Call :=
  [⟨1, .drawStart⟩, ⟨1, .takeSnapshot⟩,
   ⟨0, .drawStart⟩, ⟨0, .takeSnapshot⟩,
   ⟨0, .call (.put kInodeCFIndex [7] [1])⟩, ⟨0, .call (.put kInodeCFIndex [7] [2])⟩,
   ⟨0, .call (.del kDEntCFIndex [8])⟩,
   ⟨0, .drawCommit⟩, ⟨0, .isConflictFree⟩, ⟨0, .writeBatch true⟩,
   ⟨2, .drawStart⟩, ⟨2, .takeSnapshot⟩,
   ⟨1, .call (.get none kInodeCFIndex [7] false)⟩,
   ⟨2, .call (.getRange none kInodeCFIndex [] [9] 10 false)⟩]

/-- Its trace from the empty database. -/
def interleavedReadersTrace : Trace :=
  ((replay kvStep (KVState.init .empty) interleavedReaders).map Prod.fst).getD []

theorem interleavedReadersTrace_run :
    ∃ s, Run kvStep (KVState.init .empty) interleavedReadersTrace s :=
  exists_run_of_replay interleavedReaders rfl

theorem reads_eq_snapshot_interleavedReaders :
    (⟨1, .call (.get none kInodeCFIndex [7] false)⟩, .value (.ok none)) ∈
        interleavedReadersTrace ∧
      ∃ snapshot : Database, snapshot.get kInodeCFIndex [7] = some [2] ∧
        [[2]] = snapshot.range kInodeCFIndex [] [9] 10 := by
  obtain ⟨s, hrun⟩ := interleavedReadersTrace_run
  obtain ⟨snapshot, hget, _, hrange⟩ := reads_eq_snapshot hrun 2
  refine ⟨by decide, snapshot, ?_, ?_⟩
  · rw [hget]
    decide
  · exact hrange none kInodeCFIndex [] [9] 10 false [[2]] (by decide)

end RocketFS
