import RocketFS.Service.Handlers
import RocketFS.Service.System

/-!
# Every thread keeps to its handler

What the trace says about a thread: as long as its handler runs, it satisfies the
pre- and postconditions of its request with the snapshot and the write set of its
transaction and the ids and clock readings the trace shows. So at the moment a
batch is written, the request has what it commits (`ThreadInv`, `threadsInv_run`).

The conflict detector of a namenode is never told of a commit and finds no
conflict (`isConflictFree_ne_false`), so a commit that returns has written its
batch.
-/

namespace RocketFS

/-- The inputs and outputs of a run of the namenode. -/
abbrev ServiceTrace := List (ServiceCall × Reply)

/-- The ids `Next` returned to a thread. -/
def idsOf (t : TxnId) (trace : ServiceTrace) : List InodeID :=
  trace.filterMap fun e => match e.1.event with
    | .next (.ok id) => if e.1.thread = t then some id else none
    | _ => none

/-- The clock readings of a thread. -/
def timesOf (t : TxnId) (trace : ServiceTrace) : List Int64 :=
  trace.filterMap fun e => match e.1.event with
    | .nowNs now => if e.1.thread = t then some now else none
    | _ => none

/-- The id an event hands out, if any. -/
def Event.ids : Event → List InodeID
  | .next (.ok id) => [id]
  | _ => []

/-- The clock reading of an event, if any. -/
def Event.times : Event → List Int64
  | .nowNs now => [now]
  | _ => []

section Snoc

variable {t u : TxnId} {trace : ServiceTrace} {event : Event} {reply : Reply}

theorem idsOf_snoc_self :
    idsOf t (trace ++ [(⟨t, event⟩, reply)]) = idsOf t trace ++ event.ids := by
  rw [idsOf, List.filterMap_append]
  rcases event with _ | _ | _ | (_ | _) | _ | _ | _ | _ <;> simp [idsOf, Event.ids]

theorem idsOf_snoc_of_ne (h : u ≠ t) :
    idsOf u (trace ++ [(⟨t, event⟩, reply)]) = idsOf u trace := by
  rw [idsOf, List.filterMap_append]
  rcases event with _ | _ | _ | (_ | _) | _ | _ | _ | _ <;> simp [idsOf, Ne.symm h]

theorem timesOf_snoc_self :
    timesOf t (trace ++ [(⟨t, event⟩, reply)]) = timesOf t trace ++ event.times := by
  rw [timesOf, List.filterMap_append]
  cases event <;> simp [timesOf, Event.times]

theorem timesOf_snoc_of_ne (h : u ≠ t) :
    timesOf u (trace ++ [(⟨t, event⟩, reply)]) = timesOf u trace := by
  rw [timesOf, List.filterMap_append]
  cases event <;> simp [timesOf, Ne.symm h]

end Snoc

/-- What is remembered of a thread: its transaction and what the trace shows. -/
def progressOf (t : TxnId) (trace : ServiceTrace) (txn : Txn) (committed : Bool) : Progress :=
  ⟨txn.snapshot, txn.writeSet, idsOf t trace, timesOf t trace, committed⟩

/-- What holds of a thread and its session. -/
def ThreadInv (fb : FlatBuffers) (t : TxnId) (trace : ServiceTrace) :
    Option Thread → Option Session → Prop
  | none, none => idsOf t trace = [] ∧ timesOf t trace = []
  | some (.accepted _), some (.drawn _) => idsOf t trace = [] ∧ timesOf t trace = []
  | some (.running req rest), some (.live txn) =>
    req.Wp fb rest req.Returns (progressOf t trace txn false)
  | some (.running req rest), some (.committing txn)
  | some (.running req rest), some (.validated txn) =>
    (∃ k, rest = .call .commitTxn k) ∧
      req.Wp fb rest req.Returns (progressOf t trace txn false)
  | some (.running req rest), some (.committed txn) =>
    req.Commits fb (progressOf t trace txn false) ∧
      req.Wp fb rest req.Returns (progressOf t trace txn true)
  | some (.running _ rest), some (.thrown _) => ∃ crash, rest = .done (.error crash)
  | _, _ => False

/-- What holds of all threads. -/
structure ThreadsInv (fb : FlatBuffers) (trace : ServiceTrace) (s : ServiceState) : Prop where
  detector : s.kv.store.conflictDetector = ⟨.empty, 0⟩
  thread : ∀ t, ThreadInv fb t trace (s.thread t) (s.kv.session t)

theorem threadsInv_init (fb : FlatBuffers) (db : Database) :
    ThreadsInv fb [] (ServiceState.init db) where
  detector := rfl
  thread _ := ⟨rfl, rfl⟩

/-! ### One step -/

/-- A detector that remembers nothing finds no conflict. -/
theorem isConflictFree_ne_false (txn : Txn) :
    ConflictDetector.isConflictFree ⟨.empty, 0⟩ txn ≠ .ok false := by
  intro h
  obtain ⟨_, hstart, h⟩ := bind_ok h
  obtain ⟨_, _, h⟩ := bind_ok h
  have hpos : txn.startVersion > 0 := by
    by_contra hneg
    simp [hneg] at hstart
  rw [if_neg (show ¬ txn.startVersion < 0 by omega)] at h
  cases h

theorem SessionStep.detector {store store' : KVStore} {session : Option Session}
    {session' : Session} {action : Action} {reply : Reply}
    (h : SessionStep store session action reply session' store') :
    store'.conflictDetector = store.conflictDetector := by
  cases h <;> rfl

section Own

variable {fb : FlatBuffers} {t : TxnId} {trace : ServiceTrace} {req : Request} {txn txn' : Txn}

theorem Request.returns_error (req : Request) (crash : Crash) (l : Progress) :
    req.Returns (.error crash) l := by
  cases req <;> trivial

/-- An event that hands out neither an id nor a clock reading changes nothing that is
remembered besides the transaction. -/
theorem progressOf_snoc {event : Event} {reply : Reply} (hids : event.ids = [])
    (htimes : event.times = []) (committed : Bool) :
    progressOf t (trace ++ [(⟨t, event⟩, reply)]) txn committed =
      progressOf t trace txn committed := by
  rw [progressOf, idsOf_snoc_self, timesOf_snoc_self, hids, htimes, List.append_nil,
    List.append_nil]
  rfl

/-- A call on the transaction is answered as the pre- and postconditions allow. -/
theorem call_answers {op : Operation} {event : Event} {txnOp : TxnOp} {reply : Reply}
    (haction : op.action event = some (.call txnOp))
    (hcall : CallStep txn txnOp txn' reply) (k : op.Answer → HandlerM Response) :
    event.ids = [] ∧ event.times = [] ∧ ∃ x, op.resume k reply = k x ∧
      Answers (progressOf t trace txn false) op x (progressOf t trace txn' false) := by
  unfold Operation.action at haction
  split at haction
  case h_5 | h_6 | h_7 | h_8 => cases haction
  all_goals
    obtain rfl := Action.call.inj (Option.some.inj haction)
    cases hcall
  case h_1 result hanswer => exact ⟨rfl, rfl, result, rfl, rfl, hanswer⟩
  case h_2 result hanswer => exact ⟨rfl, rfl, result, rfl, rfl, hanswer⟩
  case h_3 => exact ⟨rfl, rfl, (), rfl, rfl⟩
  case h_4 => exact ⟨rfl, rfl, (), rfl, rfl⟩

/-- The pending call is on the transaction, or it is the commit. -/
theorem Operation.action_cases {op : Operation} {event : Event} {action : Action}
    (h : op.action event = some action) :
    (op ≠ .commitTxn ∧ ∃ txnOp, action = .call txnOp) ∨
      (op = .commitTxn ∧ event.ids = [] ∧ event.times = [] ∧ ∀ txnOp, action ≠ .call txnOp) := by
  unfold Operation.action at h
  split at h
  case h_8 => cases h
  all_goals
    obtain rfl := Option.some.inj h
    first
      | exact .inl ⟨nofun, _, rfl⟩
      | exact .inr ⟨rfl, rfl, rfl, nofun⟩

/-- A thread that calls something has a live transaction, unless it commits. -/
theorem ThreadInv.live_of_call {op : Operation} {k : op.Answer → HandlerM Response}
    {session : Option Session}
    (h : ThreadInv fb t trace (some (.running req (.call op k))) session)
    (hop : op ≠ .commitTxn) :
    ∃ txn, session = some (.live txn) ∧
      req.Wp fb (.call op k) req.Returns (progressOf t trace txn false) := by
  rcases session with _ | (_ | txn | txn | txn | txn | txn | crash)
  · exact h.elim
  · exact h.elim
  · exact ⟨txn, rfl, h⟩
  · obtain ⟨⟨k', heq⟩, _⟩ := h
    exact absurd (Program.call.inj heq).1 hop
  · obtain ⟨⟨k', heq⟩, _⟩ := h
    exact absurd (Program.call.inj heq).1 hop
  · -- nothing is called after the commit
    exact absurd h.2.at_call.1 (by simp [progressOf])
  · exact h.elim
  · obtain ⟨crash, heq⟩ := h
    cases heq

/-- A call on the transaction. -/
theorem ThreadInv.step_call {op : Operation} {k : op.Answer → HandlerM Response} {event : Event}
    {txnOp : TxnOp} {reply : Reply} {store store' : KVStore} {session : Option Session}
    {session' : Session} (h : ThreadInv fb t trace (some (.running req (.call op k))) session)
    (hop : op ≠ .commitTxn) (haction : op.action event = some (.call txnOp))
    (hstep : SessionStep store session (.call txnOp) reply session' store') :
    ThreadInv fb t (trace ++ [(⟨t, event⟩, reply)]) (some (.running req (op.resume k reply)))
      (some session') := by
  obtain ⟨txn, rfl, hwp⟩ := h.live_of_call hop
  cases hstep with
  | call hcall =>
    obtain ⟨hids, htimes, x, hresume, hanswers⟩ := call_answers haction hcall k
    rw [hresume]
    have hnext := hwp.after_call hanswers
    rw [← progressOf_snoc hids htimes] at hnext
    exact hnext
  | callThrew crash => exact ⟨crash, rfl⟩

/-- A call that is answered outside the store: the transaction stays as it is. -/
theorem ThreadInv.step_outside {op : Operation} {k : op.Answer → HandlerM Response} {x : op.Answer}
    {event : Event} {reply : Reply} {session : Option Session}
    (h : ThreadInv fb t trace (some (.running req (.call op k))) session) (hop : op ≠ .commitTxn)
    (hanswers : ∀ txn, Answers (progressOf t trace txn false) op x
      (progressOf t (trace ++ [(⟨t, event⟩, reply)]) txn false)) :
    ThreadInv fb t (trace ++ [(⟨t, event⟩, reply)]) (some (.running req (k x))) session := by
  obtain ⟨txn, rfl, hwp⟩ := h.live_of_call hop
  exact hwp.after_call (hanswers txn)

/-- A part of the commit. -/
theorem ThreadInv.step_commit {k : Except Status Unit → HandlerM Response} {event : Event}
    {action : Action} {reply : Reply} {store store' : KVStore} {session : Option Session}
    {session' : Session} (hdetector : store.conflictDetector = ⟨.empty, 0⟩)
    (h : ThreadInv fb t trace (some (.running req (.call .commitTxn k))) session)
    (haction : Operation.commitTxn.action event = some action)
    (hstep : SessionStep store session action reply session' store') :
    ThreadInv fb t (trace ++ [(⟨t, event⟩, reply)])
      (some (.running req (Operation.commitTxn.resume k reply))) (some session') := by
  obtain ⟨hids, htimes, hcall⟩ : event.ids = [] ∧ event.times = [] ∧
      ∀ txnOp, action ≠ .call txnOp := by
    rcases Operation.action_cases haction with ⟨hne, _⟩ | ⟨_, hrest⟩
    · exact absurd rfl hne
    · exact hrest
  have hprogress : ∀ (txn : Txn) committed,
      progressOf t (trace ++ [(⟨t, event⟩, reply)]) txn committed =
        progressOf t trace txn committed := fun txn committed => progressOf_snoc hids htimes _
  cases hstep with
  -- the start of a transaction is no part of a commit
  | drawStart => cases event <;> cases haction
  | takeSnapshot startVersion => cases event <;> cases haction
  | call hcall' => exact absurd rfl (hcall _)
  | callThrew crash => exact absurd rfl (hcall _)
  | drawCommit txn => exact ⟨⟨k, rfl⟩, (hprogress _ _).symm ▸ h⟩
  | conflictFree txn _ => exact ⟨⟨k, rfl⟩, (hprogress txn false).symm ▸ h.2⟩
  | conflict txn hconflict =>
    -- the detector never remembers a transaction, so it refuses none
    exact absurd (hdetector ▸ hconflict) (isConflictFree_ne_false txn)
  | checkThrew txn crash => exact ⟨crash, rfl⟩
  | write txn =>
    -- the guard of the commit is what `Commits` says, and the answer is success
    refine ⟨(hprogress txn false).symm ▸ h.2.at_call.2 rfl, ?_⟩
    exact (hprogress txn true).symm ▸ h.2.after_call rfl
  | writeThrew txn crash => exact ⟨crash, rfl⟩

/-- The step of a thread together with its session. -/
theorem ThreadInv.step {event : Event} {action : Option Action} {reply : Reply}
    {thread : Option Thread} {thread' : Thread} {kv kv' : KVState}
    (hdetector : kv.store.conflictDetector = ⟨.empty, 0⟩)
    (h : ThreadInv fb t trace thread (kv.session t))
    (hthread : ThreadStep fb thread event action reply thread')
    (hstore : StoreStep kv t action reply kv') :
    ThreadInv fb t (trace ++ [(⟨t, event⟩, reply)]) (some thread') (kv'.session t) := by
  cases hthread with
  | accept req reply =>
    obtain ⟨session', hstep, hself, _⟩ := kvStep_inv hstore
    rw [hself]
    generalize kv.session t = session at h hstep
    generalize kv'.store = store' at hstep
    cases hstep
    obtain ⟨hids, htimes⟩ := h
    refine ⟨?_, ?_⟩
    · rw [idsOf_snoc_self, hids]
      rfl
    · rw [timesOf_snoc_self, htimes]
      rfl
  | takeSnapshot req reply =>
    obtain ⟨session', hstep, hself, _⟩ := kvStep_inv hstore
    rw [hself]
    generalize kv.session t = session at h hstep
    generalize kv'.store = store' at hstep
    cases hstep
    obtain ⟨hids, htimes⟩ := h
    -- the handler starts on the snapshot, with nothing written or drawn
    have hprogress : ∀ startVersion, progressOf t (trace ++ [(⟨t, .takeSnapshot⟩, .done)])
        (Txn.new kv.store.db startVersion) false = Progress.start kv.store.db := by
      intro startVersion
      rw [progressOf_snoc rfl rfl, progressOf, hids, htimes]
      rfl
    rw [ThreadInv, hprogress]
    exact req.wp_run kv.store.db
  | next req k id =>
    obtain rfl : kv' = kv := hstore
    refine h.step_outside nofun fun txn => ?_
    rw [Answers, progressOf, progressOf, idsOf_snoc_self, timesOf_snoc_self]
    simp [Event.ids, Event.times]
  | nextThrew req k crash =>
    obtain rfl : kv' = kv := hstore
    obtain ⟨txn, hlive, hwp⟩ := h.live_of_call nofun
    rw [hlive]
    exact req.returns_error crash _
  | nowNs req k now =>
    obtain rfl : kv' = kv := hstore
    refine h.step_outside nofun fun txn => ?_
    rw [Answers, progressOf, progressOf, idsOf_snoc_self, timesOf_snoc_self]
    simp [Event.ids, Event.times]
  | @call req op k event action haction reply =>
    obtain ⟨session', hstep, hself, _⟩ := kvStep_inv hstore
    rw [hself]
    rcases Operation.action_cases haction with ⟨hop, txnOp, rfl⟩ | ⟨rfl, _⟩
    · exact h.step_call hop haction hstep
    · exact h.step_commit hdetector haction hstep

end Own

/-- The step of another thread. -/
theorem ThreadInv.frame {fb : FlatBuffers} {t u : TxnId} {trace : ServiceTrace} {event : Event}
    {reply : Reply} {thread : Option Thread} {session : Option Session} (hne : u ≠ t)
    (h : ThreadInv fb u trace thread session) :
    ThreadInv fb u (trace ++ [(⟨t, event⟩, reply)]) thread session := by
  have hids : idsOf u (trace ++ [(⟨t, event⟩, reply)]) = idsOf u trace := idsOf_snoc_of_ne hne
  have htimes : timesOf u (trace ++ [(⟨t, event⟩, reply)]) = timesOf u trace :=
    timesOf_snoc_of_ne hne
  have hprogress : ∀ (txn : Txn) committed,
      progressOf u (trace ++ [(⟨t, event⟩, reply)]) txn committed =
        progressOf u trace txn committed := by
    intro txn committed
    rw [progressOf, hids, htimes, progressOf]
  unfold ThreadInv at h ⊢
  simp only [hprogress, hids, htimes]
  exact h

/-- The other sessions do not move. -/
theorem StoreStep.other {kv kv' : KVState} {t u : TxnId} {action : Option Action} {reply : Reply}
    (h : StoreStep kv t action reply kv') (hne : u ≠ t) : kv'.session u = kv.session u := by
  cases action with
  | none => rw [show kv' = kv from h]
  | some action =>
    obtain ⟨_, _, _, hother⟩ := kvStep_inv h
    exact hother u hne

theorem StoreStep.detector {kv kv' : KVState} {t : TxnId} {action : Option Action} {reply : Reply}
    (h : StoreStep kv t action reply kv') :
    kv'.store.conflictDetector = kv.store.conflictDetector := by
  cases action with
  | none => rw [show kv' = kv from h]
  | some action =>
    obtain ⟨_, hstep, _, _⟩ := kvStep_inv h
    exact hstep.detector

theorem ThreadsInv.step {fb : FlatBuffers} {trace : ServiceTrace} {s s' : ServiceState}
    {c : ServiceCall} {reply : Reply} (h : ThreadsInv fb trace s)
    (hs : serviceStep fb s c = some (s', reply)) : ThreadsInv fb (trace ++ [(c, reply)]) s' := by
  obtain ⟨t, event⟩ := c
  obtain ⟨action, thread', hthread, hstore, hself, hother⟩ := serviceStep_inv hs
  refine ⟨hstore.detector.trans h.detector, fun u => ?_⟩
  by_cases hu : u = t
  · rw [hu, hself]
    exact (h.thread t).step h.detector hthread hstore
  · rw [hother u hu, hstore.other hu]
    exact (h.thread u).frame hu

/-- The invariant holds along every run. -/
theorem threadsInv_run {fb : FlatBuffers} {db : Database} {trace : ServiceTrace}
    {s : ServiceState} (h : Run (serviceStep fb) (ServiceState.init db) trace s) :
    ThreadsInv fb trace s :=
  h.invariant (threadsInv_init fb db) fun _ _ _ _ _ _ hinv hs => hinv.step hs

end RocketFS
