import RocketFS.Lib.Linearizability
import RocketFS.Service.Decisions
import RocketFS.Service.Durability
import RocketFS.Service.Lifetime

/-!
# The namenode is linearizable

Requests overlap on a namenode, and nothing protects them from each other: the conflict
detector is never told of a commit. All the same every history of requests and responses
is one of requests executed alone, one after the other, each between its acceptance and
its response. A request that reads, or that is refused, takes effect when it takes its
snapshot. A `Mkdirs` that creates its directory takes effect when it writes its batch;
the row of its parent is then still the one it read, because a row never changes once it
is there.

The namenode may start on a database that an earlier one has left behind. The ids handed
out are assumed to be fresh, and RocksDB to report no errors.

## Main definitions

* `observedStep` — a step of the namenode, with the response it sends
* `requestHistory` — the requests and responses of a run
* `NamespaceStep` — what one request does to the list of created directories
* `FreshFor` — ids that are new to the database the namenode has started on

## Main results

* `linearInv_run` — the order in which the requests take effect
* `namenode_linearizable` — every history is linearizable
-/

namespace RocketFS

/-! ### The history of a run -/

/-- The response of a thread whose handler has returned. -/
def Thread.answer : Thread → Option Response
  | .running _ (.done (.ok resp)) => some resp
  | _ => none

/-- A step of the namenode, with the response that is sent when the handler returns at it. -/
def observedStep (fb : FlatBuffers) (s : ServiceState) (c : ServiceCall) :
    Option (ServiceState × (Reply × Option Response)) :=
  match serviceStep fb s c with
  | none => none
  | some (s', reply) => some (s', reply, (s'.thread c.thread).bind Thread.answer)

/-- The inputs and outputs of a run, with the responses. -/
abbrev ObservedTrace := List (ServiceCall × (Reply × Option Response))

/-- The same without the responses. -/
def serviceTrace (trace : ObservedTrace) : ServiceTrace := trace.map fun e => (e.1, e.2.1)

/-- The request a step accepts. -/
def invocationOf (c : ServiceCall) : List (Visible TxnId Request Response) :=
  match c.event with
  | .accept req => [.invoke c.thread req]
  | _ => []

/-- What a client sees of a step. -/
def visibleOf (e : ServiceCall × (Reply × Option Response)) :
    List (Visible TxnId Request Response) :=
  invocationOf e.1 ++ e.2.2.toList.map (.respond e.1.thread)

/-- The requests and responses of a run. -/
def requestHistory (trace : ObservedTrace) : List (Visible TxnId Request Response) :=
  trace.flatMap visibleOf

/-- RocksDB reports no error at this event. -/
def Event.faultFree : Event → Bool
  | .call fault => fault.isNone
  | _ => true

/-- RocksDB reports no errors. -/
def FaultFree (trace : ServiceTrace) : Prop := ∀ e ∈ trace, e.1.event.faultFree

instance (trace : ServiceTrace) : Decidable (FaultFree trace) :=
  inferInstanceAs (Decidable (∀ e ∈ trace, _))

section Observed

variable {fb : FlatBuffers} {s s' : ServiceState} {c : ServiceCall} {reply : Reply}
  {answer : Option Response} {trace : ObservedTrace}

theorem observedStep_inv (h : observedStep fb s c = some (s', reply, answer)) :
    serviceStep fb s c = some (s', reply) ∧
      answer = (s'.thread c.thread).bind Thread.answer := by
  rw [observedStep] at h
  split at h
  · cases h
  · rename_i hs
    obtain ⟨rfl, heq⟩ := Prod.mk.inj (Option.some.inj h)
    obtain ⟨rfl, rfl⟩ := Prod.mk.inj heq
    exact ⟨hs, rfl⟩

theorem serviceTrace_snoc : serviceTrace (trace ++ [(c, reply, answer)]) =
    serviceTrace trace ++ [(c, reply)] := by
  simp [serviceTrace]

/-- What is observed is a run of the namenode. -/
theorem run_of_observed {s₀ : ServiceState} (h : Run (observedStep fb) s₀ trace s) :
    Run (serviceStep fb) s₀ (serviceTrace trace) s := by
  have hproject := h.project id (fun e => [(e.1, e.2.1)]) fun s i s' o hs =>
    Run.single (observedStep_inv hs).1
  rwa [← List.map_eq_flatMap] at hproject

theorem requestHistory_snoc : requestHistory (trace ++ [(c, reply, answer)]) =
    requestHistory trace ++ visibleOf (c, reply, answer) := by
  simp [requestHistory]

theorem invoke_mem_requestHistory {t : TxnId} {req : Request} :
    .invoke t req ∈ requestHistory trace ↔
      ∃ reply, (⟨t, .accept req⟩, reply) ∈ serviceTrace trace := by
  simp only [requestHistory, serviceTrace, List.mem_flatMap, List.mem_map]
  constructor
  · rintro ⟨⟨⟨u, event⟩, reply, answer⟩, hmem, hvisible⟩
    cases event <;> simp [visibleOf, invocationOf] at hvisible
    obtain ⟨rfl, rfl⟩ := hvisible
    exact ⟨reply, _, hmem, rfl⟩
  · rintro ⟨reply, ⟨c, reply', answer⟩, hmem, heq⟩
    obtain ⟨rfl, rfl⟩ := Prod.mk.inj heq
    exact ⟨_, hmem, by simp [visibleOf, invocationOf]⟩

/-- A request that was accepted is that of its thread. -/
theorem invoked_iff {db : Database} (h : Run (observedStep fb) (ServiceState.init db) trace s)
    {t : TxnId} {req : Request} : .invoke t req ∈ requestHistory trace ↔
      ∃ thread, s.thread t = some thread ∧ thread.request = req :=
  invoke_mem_requestHistory.trans (accepted_run (run_of_observed h) t req).symm

end Observed

/-! ### Where the requests take effect -/

/-- An order of execution of requests. -/
abbrev RequestOrder := List (Effect TxnId Request Response)

/-- The handler has this much left to do in a transaction that has not committed. -/
def Following (fb : FlatBuffers) (req : Request) (rest : HandlerM Response) (txn : Txn) : Prop :=
  ∃ ids times, ExactWp rest (req.Decides fb) ⟨txn.snapshot, txn.writeSet, ids, times, false⟩

/-- A request on this snapshot that has not committed: if its answer is settled it has
taken effect, and if it is going to create a directory it has not. -/
structure Awaits (fb : FlatBuffers) (order : RequestOrder) (t : TxnId) (req : Request)
    (snapshot : Database) : Prop where
  settled : ∀ resp, req.settled fb snapshot = some (.ok resp) → ⟨t, req, resp⟩ ∈ order
  creates : req.settled fb snapshot = none → t ∉ order.map Effect.op

/-- Whether the request of a thread has taken effect. -/
def Placed (fb : FlatBuffers) (order : RequestOrder) (t : TxnId) :
    Option Thread → Option Session → Prop
  | some (.accepted _), _ => t ∉ order.map Effect.op
  | some (.running req rest), some (.live txn)
  | some (.running req rest), some (.committing txn)
  | some (.running req rest), some (.validated txn) =>
    Following fb req rest txn ∧ Awaits fb order t req txn.snapshot
  | some (.running req rest), some (.committed _) =>
    ∃ resp, rest = .done (.ok resp) ∧ ⟨t, req, resp⟩ ∈ order
  | _, _ => True

section Placed

variable {fb : FlatBuffers} {order more : RequestOrder} {t u : TxnId} {thread : Thread}
  {session : Option Session} {trace : ServiceTrace}

/-- A response is one a request took effect with. -/
theorem Placed.answered (hinv : ThreadInv fb t trace (some thread) session)
    (h : Placed fb order t (some thread) session) {resp : Response}
    (hanswer : thread.answer = some resp) : ⟨t, thread.request, resp⟩ ∈ order := by
  obtain ⟨req, rfl⟩ : ∃ req, thread = .running req (.done (.ok resp)) := by
    unfold Thread.answer at hanswer
    split at hanswer
    · obtain rfl := Option.some.inj hanswer
      exact ⟨_, rfl⟩
    · cases hanswer
  rcases session with _ | (_ | txn | txn | txn | txn | txn | crash)
  · exact hinv.elim
  · exact hinv.elim
  · obtain ⟨⟨ids, times, hdecides⟩, hawaits⟩ := h
    exact hawaits.settled resp (hdecides resp rfl)
  · obtain ⟨⟨k, heq⟩, _⟩ := hinv
    cases heq
  · obtain ⟨⟨k, heq⟩, _⟩ := hinv
    cases heq
  · obtain ⟨resp', heq, hmem⟩ := h
    cases heq
    exact hmem
  · exact hinv.elim
  · obtain ⟨crash, heq⟩ := hinv
    cases heq

theorem not_mem_append_of_op (h : u ∉ order.map Effect.op) (hne : u ≠ t)
    (hmore : ∀ e ∈ more, e.op = t) : u ∉ (order ++ more).map Effect.op := by
  rw [List.map_append, List.mem_append]
  rintro (hold | hnew)
  · exact h hold
  · obtain ⟨e, he, rfl⟩ := List.mem_map.mp hnew
    exact hne (hmore e he)

theorem Awaits.frame {req : Request} {snapshot : Database}
    (h : Awaits fb order u req snapshot) (hne : u ≠ t) (hmore : ∀ e ∈ more, e.op = t) :
    Awaits fb (order ++ more) u req snapshot where
  settled resp hsettled := List.mem_append_left _ (h.settled resp hsettled)
  creates hnone := not_mem_append_of_op (h.creates hnone) hne hmore

/-- Another thread takes effect. -/
theorem Placed.frame {thread : Option Thread} (h : Placed fb order u thread session)
    (hne : u ≠ t) (hmore : ∀ e ∈ more, e.op = t) :
    Placed fb (order ++ more) u thread session := by
  unfold Placed at h ⊢
  split
  · exact not_mem_append_of_op h hne hmore
  · exact ⟨h.1, h.2.frame hne hmore⟩
  · exact ⟨h.1, h.2.frame hne hmore⟩
  · exact ⟨h.1, h.2.frame hne hmore⟩
  · obtain ⟨resp, hrest, hmem⟩ := h
    exact ⟨resp, hrest, List.mem_append_left _ hmem⟩
  · trivial

end Placed

/-! ### One step -/

section Step

variable {fb : FlatBuffers} {req : Request} {txn txn' : Txn}

/-- A call on the transaction, with its exact result. -/
theorem kvStep_call_inv {kv kv' : KVState} {t : TxnId} {op : TxnOp} {reply : Reply}
    (h : kvStep kv ⟨t, .call op⟩ = some (kv', reply)) :
    ∃ txn, kv.session t = some (.live txn) ∧
      ((∃ txn', txn.call op = .ok (txn', reply) ∧ kv'.session t = some (.live txn')) ∨
        ∃ crash, reply = .threw crash ∧ kv'.session t = some (.thrown crash)) := by
  simp only [kvStep] at h
  split at h
  all_goals first | contradiction | skip
  rename_i op' txn hop hsession
  obtain rfl := Action.call.inj hop
  refine ⟨txn, hsession, ?_⟩
  split at h
  · rename_i txn' reply' hcall
    obtain ⟨rfl, rfl⟩ := Prod.mk.inj (Option.some.inj h)
    exact .inl ⟨txn', hcall, KVState.move_session_self⟩
  · rename_i crash hcall
    obtain ⟨rfl, rfl⟩ := Prod.mk.inj (Option.some.inj h)
    exact .inr ⟨crash, rfl, KVState.move_session_self⟩

/-- Without a fault, a read is answered by the snapshot. -/
theorem answerOn_of_answer {op : ReadOp} {x : op.Answer}
    (h : txn.answer none op = .ok (txn', x)) :
    answerOn txn.snapshot op = .ok x ∧ txn'.snapshot = txn.snapshot ∧
      txn'.writeSet = txn.writeSet := by
  obtain ⟨readSet, hanswer⟩ := txn.answer_none op
  rw [hanswer] at h
  obtain ⟨x', hx, hpair⟩ := map_ok h
  obtain ⟨rfl, rfl⟩ := Prod.mk.inj hpair
  exact ⟨hx, rfl, rfl⟩

/-- A call on the transaction is answered as the exact answers say. -/
theorem call_exactAnswers {op : Operation} {event : Event} {txnOp : TxnOp} {reply : Reply}
    (haction : op.action event = some (.call txnOp)) (hfault : event.faultFree)
    (hcall : txn.call txnOp = .ok (txn', reply)) (k : op.Answer → HandlerM Response) :
    ∃ x, op.resume k reply = k x ∧ ∀ ids times,
      ExactAnswers ⟨txn.snapshot, txn.writeSet, ids, times, false⟩ op x
        ⟨txn'.snapshot, txn'.writeSet, ids, times, false⟩ := by
  unfold Operation.action at haction
  split at haction
  case h_5 | h_6 | h_7 | h_8 => cases haction
  all_goals obtain rfl := Action.call.inj (Option.some.inj haction)
  case h_1 cf key fault =>
    obtain rfl : fault = none := by simpa [Event.faultFree] using hfault
    obtain ⟨⟨txn₁, result⟩, hget, hpair⟩ := map_ok hcall
    obtain ⟨rfl, rfl⟩ := Prod.mk.inj hpair
    have hread : txn.answer none (.get cf key) = .ok (txn₁, result) := hget
    obtain ⟨hanswer, hsnapshot, hwrites⟩ := answerOn_of_answer hread
    exact ⟨result, rfl, fun ids times => ⟨by rw [hsnapshot, hwrites], hanswer⟩⟩
  case h_2 cf startKey endKey limit fault =>
    obtain rfl : fault = none := by simpa [Event.faultFree] using hfault
    obtain ⟨⟨txn₁, result⟩, hget, hpair⟩ := map_ok hcall
    obtain ⟨rfl, rfl⟩ := Prod.mk.inj hpair
    have hread : txn.answer none (.getRange cf startKey endKey limit) = .ok (txn₁, result) := hget
    obtain ⟨hanswer, hsnapshot, hwrites⟩ := answerOn_of_answer hread
    exact ⟨result, rfl, fun ids times => ⟨by rw [hsnapshot, hwrites], hanswer⟩⟩
  case h_3 cf key value fault =>
    obtain ⟨txn₁, hput, hpair⟩ := map_ok hcall
    obtain ⟨rfl, rfl⟩ := Prod.mk.inj hpair
    obtain rfl := Txn.put_ok hput
    exact ⟨(), rfl, fun ids times => rfl⟩
  case h_4 cf key fault =>
    obtain ⟨txn₁, hdel, hpair⟩ := map_ok hcall
    obtain ⟨rfl, rfl⟩ := Prod.mk.inj hpair
    obtain rfl := Txn.del_ok hdel
    exact ⟨(), rfl, fun ids times => rfl⟩

theorem Following.after_call {op : Operation} {k : op.Answer → HandlerM Response} {x : op.Answer}
    (h : Following fb req (.call op k) txn)
    (hx : ∀ ids times, ∃ ids' times', ExactAnswers ⟨txn.snapshot, txn.writeSet, ids, times, false⟩
      op x ⟨txn'.snapshot, txn'.writeSet, ids', times', false⟩) :
    Following fb req (k x) txn' := by
  obtain ⟨ids, times, hwp⟩ := h
  obtain ⟨ids', times', hanswer⟩ := hx ids times
  exact ⟨ids', times', hwp.after_call hanswer⟩

/-- After its commit the handler returns, and has created its directory. -/
theorem Following.after_commit {k : Except Status Unit → HandlerM Response}
    (h : Following fb req (.call .commitTxn k) txn) :
    ∃ resp ids times, k (.ok ()) = .done (.ok resp) ∧
      req.Made fb ⟨txn.snapshot, txn.writeSet, ids, times, true⟩ resp := by
  obtain ⟨ids, times, hwp⟩ := h
  have hafter : ExactWp (k (.ok ())) (req.Decides fb)
      ⟨txn.snapshot, txn.writeSet, ids, times, true⟩ := hwp.after_call rfl
  cases hrest : k (.ok ()) with
  | done result =>
    rw [hrest] at hafter
    obtain ⟨resp, rfl, hmade⟩ := hafter
    exact ⟨resp, ids, times, rfl, hmade⟩
  | call op next =>
    rw [hrest] at hafter
    cases hafter.at_call

end Step

/-! ### The directories that are created -/

/-- What one request does to the directories created so far: its answer is settled by
them, or it creates one with an id that is new. -/
inductive NamespaceStep (fb : FlatBuffers) (rows : List Dir) :
    Request → Response → List Dir → Prop
  | settled {req : Request} {resp : Response}
      (h : req.settled fb (dbOf fb rows) = some (.ok resp)) : NamespaceStep fb rows req resp rows
  | created {req : MkdirsRequest} {parentDir : Dir} {id : InodeID} (now : Int64)
      (h : (Request.mkdirs req).Creates fb (dbOf fb rows) parentDir)
      (hnew : ∀ dir ∈ rows, dir.id ≠ id) (hroot : id ≠ kRootInodeID) :
      NamespaceStep fb rows (.mkdirs req)
        (.mkdirs (MkdirsOp.success (MkdirsOp.newDir req parentDir id now)))
        (rows ++ [MkdirsOp.newDir req parentDir id now])

/-- It is what the request does when it is executed alone on the database. -/
theorem NamespaceStep.atomic {fb : FlatBuffers} {rows rows' : List Dir} {req : Request}
    {resp : Response} (h : NamespaceStep fb rows req resp rows') :
    Atomic fb (dbOf fb rows) req resp (dbOf fb rows') := by
  cases h with
  | settled h => exact atomic_of_settled h
  | created now h _ _ =>
    rw [dbOf_snoc]
    exact atomic_of_creates h _ now

/-- Directories are only added. -/
theorem NamespaceStep.isPrefix {fb : FlatBuffers} {rows rows' : List Dir} {req : Request}
    {resp : Response} (h : NamespaceStep fb rows req resp rows') : rows <+: rows' := by
  cases h with
  | settled => exact List.prefix_rfl
  | created => exact List.prefix_append _ _

section Executed

variable {fb : FlatBuffers} {τ : Type} {base rows : List Dir}
  {order : List (Effect τ Request Response)} {history : List (Visible τ Request Response)}

theorem Sequential.rows_isPrefix (h : Sequential (NamespaceStep fb) base order rows) :
    base <+: rows :=
  h.invariant List.prefix_rfl fun _ _ _ _ hold hstep => hold.trans hstep.isPrefix

/-- The names of the directories are those of the requests. -/
theorem Linearizes.names {P : Bytes → Prop}
    (h : Linearizes (NamespaceStep fb) [] history order rows)
    (hnames : ∀ op req, .invoke op (.mkdirs req) ∈ history → P req.name) :
    ∀ dir ∈ rows, P dir.name := by
  refine h.sequential.invariant (P := fun rows => ∀ dir ∈ rows, P dir.name)
    (fun _ hdir => absurd hdir List.not_mem_nil) ?_
  rintro ⟨op, input, output⟩ he rows rows' hold hstep dir hdir
  cases hstep with
  | settled => exact hold dir hdir
  | created now =>
    rcases List.mem_append.mp hdir with hdir | hdir
    · exact hold dir hdir
    · rw [List.mem_singleton.mp hdir]
      exact hnames op _ (h.invoked _ he)

end Executed

/-- The records of a row show its id and its modification time. -/
theorem dirWrites_inj {fb : FlatBuffers} {dir dir' : Dir}
    (h : dirWrites fb dir = dirWrites fb dir') :
    dir.id = dir'.id ∧ dir.mtimeInNs = dir'.mtimeInNs := by
  have hmtime : (Database.empty.write (dirWrites fb dir)).get kMTimeCFIndex
      (InodeSerde.serKey dir.id) = some (TimeSerde.serVal dir.mtimeInNs) := by
    rw [get_mtime_write, if_pos rfl]
  rw [h, get_mtime_write] at hmtime
  split_ifs at hmtime with hkey
  · refine ⟨InodeSerde.serKey_inj.mp hkey, ?_⟩
    have htimes := TimeSerde.deVal_serVal dir'.mtimeInNs
    rw [Option.some.inj hmtime, TimeSerde.deVal_serVal] at htimes
    exact Except.ok.inj htimes
  · cases hmtime

section Advances

variable {fb : FlatBuffers} {history : List (Visible TxnId Request Response)}
  {order : RequestOrder} {base rows : List Dir} {t : TxnId} {req : Request} {thread : Thread}
  {session : Option Session} {txn : Txn}

/-- A history is explained by an order that a step of the thread may have extended. -/
def Advances (fb : FlatBuffers) (base : List Dir) (history : List (Visible TxnId Request Response))
    (order : RequestOrder) (rows : List Dir) (t : TxnId) (thread : Thread)
    (session : Option Session) : Prop :=
  ∃ more, (∀ e ∈ more, e.op = t) ∧
    Linearizes (NamespaceStep fb) base history (order ++ more) rows ∧
    Placed fb (order ++ more) t (some thread) session

/-- A step at which nothing takes effect. -/
theorem advances_quietly (h : Linearizes (NamespaceStep fb) base history order rows)
    (hplaced : Placed fb order t (some thread) session) :
    Advances fb base history order rows t thread session := by
  refine ⟨[], fun e he => absurd he List.not_mem_nil, ?_, ?_⟩
  · rw [List.append_nil]
    exact h
  · rw [List.append_nil]
    exact hplaced

/-- A step at which the request takes effect. -/
theorem advances_with {rows' : List Dir} {resp : Response}
    (h : Linearizes (NamespaceStep fb) base history order rows)
    (hinvoked : .invoke t req ∈ history) (hnew : t ∉ order.map Effect.op)
    (hspec : NamespaceStep fb rows req resp rows')
    (hplaced : ⟨t, req, resp⟩ ∈ order ++ [⟨t, req, resp⟩] →
      Placed fb (order ++ [⟨t, req, resp⟩]) t (some thread) session) :
    Advances fb base history order rows' t thread session := by
  refine ⟨[⟨t, req, resp⟩], fun e he => ?_, h.effect hinvoked hnew hspec, ?_⟩
  · rw [List.mem_singleton.mp he]
  · exact hplaced (List.mem_append_right _ List.mem_cons_self)

/-- A request takes its snapshot: this is where it takes effect if its answer is settled. -/
theorem advances_takeSnapshot {db : Database} (startVersion : ℤ)
    (h : Linearizes (NamespaceStep fb) base history order rows) (hdb : db = dbOf fb rows)
    (hinvoked : .invoke t req ∈ history) (hnew : t ∉ order.map Effect.op) :
    Advances fb base history order rows t (.running req (req.run fb))
      (some (.live (Txn.new db startVersion))) := by
  subst hdb
  have hfollowing : Following fb req (req.run fb) (Txn.new (dbOf fb rows) startVersion) :=
    ⟨[], [], req.exactWp_run _⟩
  by_cases hsettled : ∃ resp, req.settled fb (dbOf fb rows) = some (.ok resp)
  · obtain ⟨resp, hresp⟩ := hsettled
    refine advances_with h hinvoked hnew (.settled hresp) fun hmem => ?_
    refine ⟨hfollowing, ⟨fun resp' hresp' => ?_, fun hnone => ?_⟩⟩
    · obtain rfl := Except.ok.inj (Option.some.inj (hresp.symm.trans hresp'))
      exact hmem
    · cases hresp.symm.trans hnone
  · refine advances_quietly h ⟨hfollowing, ⟨fun resp hresp => ?_, fun _ => hnew⟩⟩
    exact absurd ⟨resp, hresp⟩ hsettled

/-- What a thread that may commit does next. -/
theorem Placed.running {rest : HandlerM Response}
    (h : Placed fb order t (some (.running req rest)) session)
    (hsession : session = some (.live txn) ∨ session = some (.validated txn)) :
    Following fb req rest txn ∧ Awaits fb order t req txn.snapshot := by
  rcases hsession with rfl | rfl <;> exact h

end Advances

/-! ### The rows -/

/-- The ids handed out are distinct, and new to the database the run has started on. -/
structure FreshFor (db : Database) (trace : ServiceTrace) : Prop where
  nodup : (handedOut trace).Nodup
  new : ∀ id ∈ handedOut trace, id ≠ kRootInodeID ∧ ¬ db.HasInode id

theorem FreshIds.freshFor {trace : ServiceTrace} (h : FreshIds trace) : FreshFor .empty trace where
  nodup := h.1
  new _ hid := ⟨fun heq => h.2 (heq ▸ hid), nofun⟩

theorem FreshFor.of_append {db : Database} {before after : ServiceTrace}
    (h : FreshFor db (before ++ after)) : FreshFor db before where
  nodup := by
    have hnodup := h.nodup
    rw [handedOut, List.flatMap_append] at hnodup
    exact hnodup.of_append_left
  new id hid := by
    refine h.new id ?_
    rw [handedOut, List.flatMap_append]
    exact List.mem_append_left _ hid

/-- An id that was drawn is not in the database before its thread commits. -/
theorem FreshFor.not_hasInode {fb : FlatBuffers} {db : Database} {trace : ServiceTrace}
    {s : ServiceState} (h : FreshFor db trace)
    (hrun : Run (serviceStep fb) (ServiceState.init db) trace s) {t : TxnId} {id : InodeID}
    (hmem : id ∈ idsOf t trace) (hnot : ∀ txn, s.kv.session t ≠ some (.committed txn)) :
    ¬ s.kv.store.db.HasInode id := by
  intro hinode
  rcases hasInode_run hrun id hinode with hfound | ⟨u, txn, hu, hcommitted⟩
  · exact (h.new id (mem_handedOut hmem)).2 hfound
  · obtain rfl := thread_unique h.nodup hmem hu
    exact hnot txn hcommitted

/-- The database and all snapshots stand for lists of created directories, those of the
snapshots for initial parts. -/
structure RowsInv (fb : FlatBuffers) (s : ServiceState) (rows : List Dir) : Prop where
  db_eq : s.kv.store.db = dbOf fb rows
  snapshot : ∀ t session txn, s.kv.session t = some session → session.txn? = some txn →
    ∃ before, before <+: rows ∧ txn.snapshot = dbOf fb before
  created : Created rows

section Rows

variable {fb : FlatBuffers} {s s' : ServiceState} {rows : List Dir} {t u : TxnId}
  {action : Option Action} {reply : Reply}

theorem rowsInv_init (h : Created rows) : RowsInv fb (ServiceState.init (dbOf fb rows)) rows where
  db_eq := rfl
  snapshot _ _ _ h := by cases h
  created := h

/-- The snapshots after a step show initial parts of the rows before it. -/
theorem RowsInv.snapshot_step (h : RowsInv fb s rows)
    (hstore : StoreStep s.kv t action reply s'.kv) {session : Session} {txn : Txn}
    (hsession : s'.kv.session u = some session) (htxn : session.txn? = some txn) :
    ∃ before, before <+: rows ∧ txn.snapshot = dbOf fb before := by
  rcases hstore.snapshot_cases hsession htxn with ⟨_, _, hnow⟩ | ⟨session₀, txn₀, hs₀, ht₀, hsame⟩
  · exact ⟨rows, List.prefix_rfl, hnow.trans h.db_eq⟩
  · obtain ⟨before, hbefore, hsnapshot⟩ := h.snapshot u session₀ txn₀ hs₀ ht₀
    exact ⟨before, hbefore, hsame.trans hsnapshot⟩

theorem RowsInv.step_quiet (h : RowsInv fb s rows) (hstore : StoreStep s.kv t action reply s'.kv)
    (hdb : s'.kv.store.db = s.kv.store.db) : RowsInv fb s' rows where
  db_eq := hdb.trans h.db_eq
  snapshot _ _ _ hsession htxn := h.snapshot_step hstore hsession htxn
  created := h.created

/-- A batch with the records of a row adds the row. -/
theorem RowsInv.step_row (h : RowsInv fb s rows) (hstore : StoreStep s.kv t action reply s'.kv)
    {dir : Dir} (hdb : s'.kv.store.db = s.kv.store.db.write (dirWrites fb dir))
    (hcreated : Created (rows ++ [dir])) : RowsInv fb s' (rows ++ [dir]) where
  db_eq := by rw [hdb, h.db_eq, dbOf_snoc]
  snapshot _ _ _ hsession htxn := by
    obtain ⟨before, hbefore, hsnapshot⟩ := h.snapshot_step hstore hsession htxn
    exact ⟨before, hbefore.trans (List.prefix_append _ _), hsnapshot⟩
  created := hcreated

/-- The row of a batch that is going to be written has a new id and an existing parent. -/
theorem RowsInv.created_snoc {db : Database} {trace : ServiceTrace} {txn : Txn}
    {req : MkdirsRequest} {id : InodeID} (h : RowsInv fb s rows)
    (hrun : Run (serviceStep fb) (ServiceState.init db) trace s) (hfresh : FreshFor db trace)
    (hvalidated : s.kv.session t = some (.validated txn)) (hids : idsOf t trace = [id])
    (hparent : (⟨req.parentId⟩ : InodeID) = kRootInodeID ∨ txn.snapshot.HasInode ⟨req.parentId⟩)
    (parentDir : Dir) (now : Int64) :
    id ≠ kRootInodeID ∧ (∀ dir ∈ rows, dir.id ≠ id) ∧
      Created (rows ++ [MkdirsOp.newDir req parentDir id now]) := by
  have hdrawn : id ∈ idsOf t trace := hids ▸ List.mem_cons_self
  have hroot : id ≠ kRootInodeID := (hfresh.new id (mem_handedOut hdrawn)).1
  have hnew : ∀ dir ∈ rows, dir.id ≠ id := by
    intro dir hdir heq
    refine hfresh.not_hasInode hrun hdrawn ?_ (h.db_eq ▸ hasInode_dbOf.mpr ⟨dir, hdir, heq⟩)
    rw [hvalidated]
    exact nofun
  refine ⟨hroot, hnew, h.created.snoc hroot hnew (hparent.imp_right fun hinode => ?_)⟩
  obtain ⟨before, hbefore, hsnapshot⟩ := h.snapshot t _ txn hvalidated rfl
  rw [hsnapshot] at hinode
  obtain ⟨dir, hdir, hid⟩ := hasInode_dbOf.mp hinode
  exact ⟨dir, hbefore.subset hdir, hid⟩

end Rows

/-! ### The step of a thread -/

section Own

variable {fb : FlatBuffers} {trace : ServiceTrace} {s s' : ServiceState} {t : TxnId}
  {event : Event} {reply : Reply} {thread' : Thread} {action : Option Action}
  {order : RequestOrder} {base rows : List Dir} {history : List (Visible TxnId Request Response)}

/-- A part of the commit other than the write leaves the request where it is. -/
theorem Placed.step_commit {req : Request} {k : Except Status Unit → HandlerM Response}
    {action : Action} {store store' : KVStore} {session : Option Session} {session' : Session}
    (hdetector : store.conflictDetector = ⟨.empty, 0⟩)
    (h : Placed fb order t (some (.running req (.call .commitTxn k))) session)
    (haction : Operation.commitTxn.action event = some action) (hnot : action ≠ .writeBatch true)
    (hstep : SessionStep store session action reply session' store') :
    Placed fb order t (some (.running req (Operation.commitTxn.resume k reply)))
      (some session') := by
  cases hstep with
  | drawStart => cases event <;> cases haction
  | takeSnapshot => cases event <;> cases haction
  | call => cases event <;> cases haction
  | callThrew => cases event <;> cases haction
  | drawCommit txn => exact h
  | conflictFree txn _ => exact h
  | conflict txn hconflict =>
    exact absurd (hdetector ▸ hconflict) (isConflictFree_ne_false txn)
  | write txn => exact absurd rfl hnot
  | checkThrew => trivial
  | writeThrew => trivial

/-- A call on the transaction leaves the request where it is. -/
theorem Placed.step_call {req : Request} {op : Operation} {k : op.Answer → HandlerM Response}
    {txnOp : TxnOp} {kv kv' : KVState}
    (h : Placed fb order t (some (.running req (.call op k))) (kv.session t))
    (haction : op.action event = some (.call txnOp)) (hfault : event.faultFree)
    (hstep : kvStep kv ⟨t, .call txnOp⟩ = some (kv', reply)) :
    Placed fb order t (some (.running req (op.resume k reply))) (kv'.session t) := by
  obtain ⟨txn, hlive, hcall⟩ := kvStep_call_inv hstep
  obtain ⟨hfollowing, hawaits⟩ := h.running (.inl hlive)
  rcases hcall with ⟨txn', hcall, hlive'⟩ | ⟨crash, rfl, hthrown⟩
  · obtain ⟨x, hresume, hanswer⟩ := call_exactAnswers haction hfault hcall k
    have hsnapshot : txn'.snapshot = txn.snapshot := (Txn.call_inv hcall).snapshot
    rw [hlive', hresume]
    refine ⟨hfollowing.after_call fun ids times => ⟨ids, times, hanswer ids times⟩, ?_⟩
    rw [hsnapshot]
    exact hawaits
  · rw [hthrown]
    trivial

/-- A step that does not write a batch. -/
theorem advances_step (hthreads : ThreadsInv fb trace s)
    (h : Linearizes (NamespaceStep fb) base history order rows) (hdb : s.kv.store.db = dbOf fb rows)
    (hinvoked : ∀ req, .invoke t req ∈ history ↔
      ∃ thread, s.thread t = some thread ∧ thread.request = req)
    (hplaced : Placed fb order t (s.thread t) (s.kv.session t)) (hfault : event.faultFree)
    (hthread : ThreadStep fb (s.thread t) event action reply thread')
    (hstore : StoreStep s.kv t action reply s'.kv) (hnot : action ≠ some (.writeBatch true)) :
    Advances fb base (history ++ invocationOf ⟨t, event⟩) order rows t thread'
      (s'.kv.session t) := by
  have hinv := hthreads.thread t
  generalize s.thread t = thread at hthread hplaced hinv hinvoked
  cases hthread with
  | accept req reply =>
    have hnew : ∀ req, .invoke t req ∉ history := fun req hmem => by
      obtain ⟨thread, hsome, _⟩ := (hinvoked req).mp hmem
      cases hsome
    exact advances_quietly (h.invoke hnew) (h.not_mem_order hnew)
  | takeSnapshot req reply =>
    rw [show invocationOf ⟨t, .takeSnapshot⟩ = [] from rfl, List.append_nil]
    obtain ⟨session', hstep, hself, _⟩ := kvStep_inv hstore
    have hmem : .invoke t req ∈ history := (hinvoked req).mpr ⟨_, rfl, rfl⟩
    rw [hself]
    generalize s.kv.session t = session at hstep
    generalize s'.kv.store = store' at hstep
    cases hstep with
    | takeSnapshot startVersion => exact advances_takeSnapshot startVersion h hdb hmem hplaced
  | next req k id =>
    rw [show invocationOf ⟨t, .next (.ok id)⟩ = [] from rfl, List.append_nil]
    obtain ⟨txn, hlive, _⟩ := hinv.live_of_call nofun
    obtain ⟨hfollowing, hawaits⟩ := hplaced.running (.inl hlive)
    rw [show s'.kv = s.kv from hstore, hlive]
    refine advances_quietly h ⟨hfollowing.after_call fun ids times => ?_, hawaits⟩
    exact ⟨ids ++ [id], times, rfl⟩
  | nextThrew req k crash =>
    rw [show invocationOf ⟨t, .next (.error crash)⟩ = [] from rfl, List.append_nil]
    obtain ⟨txn, hlive, _⟩ := hinv.live_of_call nofun
    obtain ⟨_, hawaits⟩ := hplaced.running (.inl hlive)
    rw [show s'.kv = s.kv from hstore, hlive]
    refine advances_quietly h ⟨⟨[], [], fun resp hresp => ?_⟩, hawaits⟩
    cases hresp
  | nowNs req k now =>
    rw [show invocationOf ⟨t, .nowNs now⟩ = [] from rfl, List.append_nil]
    obtain ⟨txn, hlive, _⟩ := hinv.live_of_call nofun
    obtain ⟨hfollowing, hawaits⟩ := hplaced.running (.inl hlive)
    rw [show s'.kv = s.kv from hstore, hlive]
    refine advances_quietly h ⟨hfollowing.after_call fun ids times => ?_, hawaits⟩
    exact ⟨ids, times ++ [now], rfl⟩
  | @call req op k event action haction reply =>
    have hevent : invocationOf ⟨t, event⟩ = [] := by
      rcases op with (_ | _) | _ | _ | _ | _ | _ <;> cases event <;> first | rfl | cases haction
    rw [hevent, List.append_nil]
    refine advances_quietly h ?_
    rcases Operation.action_cases haction with ⟨hop, txnOp, rfl⟩ | ⟨rfl, _⟩
    · exact hplaced.step_call haction hfault hstore
    · obtain ⟨session', hstep, hself, _⟩ := kvStep_inv hstore
      rw [hself]
      exact hplaced.step_commit hthreads.detector haction (fun heq => hnot (heq ▸ rfl)) hstep

/-- A batch is written: this is where a request takes effect that creates its directory.
The row it adds is the one it answers with. -/
theorem advances_write {db : Database} {txn : Txn} (hthreads : ThreadsInv fb trace s)
    (hrun : Run (serviceStep fb) (ServiceState.init db) trace s) (hfresh : FreshFor db trace)
    (hrows : RowsInv fb s rows) (h : Linearizes (NamespaceStep fb) base history order rows)
    (hinvoked : ∀ req, .invoke t req ∈ history ↔
      ∃ thread, s.thread t = some thread ∧ thread.request = req)
    (hplaced : Placed fb order t (s.thread t) (s.kv.session t))
    (hthread : ThreadStep fb (s.thread t) (.writeBatch true) (some (.writeBatch true)) reply
      thread')
    (hstore : StoreStep s.kv t (some (.writeBatch true)) reply s'.kv)
    (hvalidated : s.kv.session t = some (.validated txn))
    (hcommitted : s'.kv.session t = some (.committed txn))
    (hdb : s'.kv.store.db = s.kv.store.db.write txn.writeSet) :
    ∃ dir, RowsInv fb s' (rows ++ [dir]) ∧
      Advances fb base history order (rows ++ [dir]) t thread' (s'.kv.session t) := by
  obtain ⟨req, rest, parentDir₀, id, now, hrunning, hids, _, hwrites₀, hparent⟩ :=
    hthreads.commits_of_validated hvalidated
  obtain ⟨k, rfl⟩ : ∃ k, rest = .call .commitTxn k := by
    have hinv := hthreads.thread t
    rw [hrunning, hvalidated] at hinv
    exact hinv.1
  have hmem : .invoke t (.mkdirs req) ∈ history := (hinvoked _).mpr ⟨_, hrunning, rfl⟩
  rw [hrunning] at hplaced hthread
  obtain ⟨hfollowing, hawaits⟩ := hplaced.running (.inr hvalidated)
  obtain ⟨resp, ids, times, hdone, parentDir, id', now', hcreates, hwrites, rfl⟩ :=
    hfollowing.after_commit
  -- the batch has the id of the trace
  obtain rfl : id = id' := (dirWrites_inj (hwrites₀.symm.trans hwrites)).1
  obtain ⟨rfl, rfl⟩ : thread' = .running (.mkdirs req) (k (.ok ())) ∧ reply = .done := by
    obtain ⟨session', hstep, _⟩ := kvStep_inv hstore
    generalize s.kv.session t = session at hstep hvalidated
    generalize s'.kv.store = store' at hstep
    cases hthread
    cases hstep
    exact ⟨rfl, rfl⟩
  obtain ⟨before, hbefore, hsnapshot⟩ := hrows.snapshot t _ txn hvalidated rfl
  obtain ⟨hroot, hnew, hcreated⟩ :=
    hrows.created_snoc hrun hfresh hvalidated hids hparent parentDir now'
  refine ⟨_, hrows.step_row hstore (hdb.trans (congrArg _ hwrites)) hcreated, ?_⟩
  -- the row of the parent is still the one that was read in the snapshot
  have hcreates' : (Request.mkdirs req).Creates fb (dbOf fb rows) parentDir := by
    obtain ⟨hread, hperm⟩ := hcreates
    rw [hsnapshot, List.prefix_iff_eq_take.mp hbefore] at hread
    exact ⟨ask_read_take hrows.created hread, hperm⟩
  refine advances_with h hmem (hawaits.creates (Request.settled_eq_none.mpr ⟨parentDir, hcreates⟩))
    (.created now' hcreates' hnew hroot) fun hmem' => ?_
  rw [hcommitted]
  exact ⟨_, hdone, hmem'⟩

end Own

/-! ### All steps -/

/-- The history is explained by the order, which leaves the directories created so far,
and every thread has its place in it. -/
structure LinearInv (fb : FlatBuffers) (base : List Dir) (trace : ObservedTrace) (s : ServiceState)
    (order : RequestOrder) (rows : List Dir) : Prop where
  standsFor : RowsInv fb s rows
  linearizes : Linearizes (NamespaceStep fb) base (requestHistory trace) order rows
  placed : ∀ t, Placed fb order t (s.thread t) (s.kv.session t)

section Run

variable {fb : FlatBuffers} {base rows rows' : List Dir} {trace : ObservedTrace}
  {s s' : ServiceState} {order : RequestOrder}

/-- A step of a thread, and the response that may be sent at it. -/
theorem LinearInv.of_advances {t : TxnId} {event : Event} {reply : Reply} {thread' : Thread}
    (h : LinearInv fb base trace s order rows) (hrows : RowsInv fb s' rows')
    (hthreads : ThreadsInv fb (serviceTrace trace ++ [(⟨t, event⟩, reply)]) s')
    (hadvances : Advances fb base (requestHistory trace ++ invocationOf ⟨t, event⟩) order
      rows' t thread' (s'.kv.session t))
    (hself : s'.thread t = some thread')
    (hother : ∀ u, u ≠ t → s'.thread u = s.thread u ∧ s'.kv.session u = s.kv.session u) :
    ∃ order', LinearInv fb base (trace ++ [(⟨t, event⟩, reply, thread'.answer)]) s' order'
      rows' := by
  obtain ⟨more, hmore, hlin, hplaced⟩ := hadvances
  refine ⟨order ++ more, ⟨hrows, ?_, fun u => ?_⟩⟩
  · rw [requestHistory_snoc, visibleOf, ← List.append_assoc]
    cases hresp : thread'.answer with
    | none =>
      rw [Option.toList_none, List.map_nil, List.append_nil]
      exact hlin
    | some resp => exact hlin.respond (hplaced.answered (hself ▸ hthreads.thread t) hresp)
  · by_cases hu : u = t
    · rw [hu, hself]
      exact hplaced
    · rw [(hother u hu).1, (hother u hu).2]
      exact (h.placed u).frame hu hmore

/-- One observed step keeps the invariant, for some order. -/
theorem LinearInv.step {db : Database} {c : ServiceCall} {reply : Reply} {answer : Option Response}
    (hrun : Run (observedStep fb) (ServiceState.init db) trace s)
    (h : LinearInv fb base trace s order rows) (hfresh : FreshFor db (serviceTrace trace))
    (hfault : c.event.faultFree) (hs : observedStep fb s c = some (s', reply, answer)) :
    ∃ order' rows', LinearInv fb base (trace ++ [(c, reply, answer)]) s' order' rows' := by
  obtain ⟨t, event⟩ := c
  have hthreads := threadsInv_run (run_of_observed hrun)
  obtain ⟨hstep, rfl⟩ := observedStep_inv hs
  have hthreads' : ThreadsInv fb (serviceTrace trace ++ [(⟨t, event⟩, reply)]) s' :=
    hthreads.step hstep
  obtain ⟨action, thread', hthread, hstore, hself, hother⟩ := serviceStep_inv hstep
  have hothers : ∀ u, u ≠ t → s'.thread u = s.thread u ∧ s'.kv.session u = s.kv.session u :=
    fun u hu => ⟨hother u hu, hstore.other hu⟩
  rw [show ((s'.thread t).bind Thread.answer) = thread'.answer by rw [hself]; rfl]
  rcases hstore.db_cases with ⟨hnot, hdb, hquiet⟩ | ⟨txn, hvalidated, rfl, hcommitted, hdb⟩
  · have hadvances := advances_step hthreads h.linearizes h.standsFor.db_eq
      (fun req => invoked_iff hrun) (h.placed t) hfault hthread hstore hnot
    obtain ⟨order', horder⟩ := h.of_advances (h.standsFor.step_quiet hstore hdb) hthreads' hadvances
      hself hothers
    exact ⟨order', rows, horder⟩
  · obtain rfl := hthread.writeBatch_iff.mp rfl
    obtain ⟨dir, hrows, hadvances⟩ := advances_write hthreads (run_of_observed hrun) hfresh
      h.standsFor h.linearizes (fun req => invoked_iff hrun) (h.placed t) hthread hstore
      hvalidated hcommitted hdb
    rw [← List.append_nil (requestHistory trace)] at hadvances
    obtain ⟨order', horder⟩ := h.of_advances hrows hthreads' hadvances hself hothers
    exact ⟨order', _, horder⟩

/-- The invariant holds along every run with fresh ids and without faults, on a database
that stands for directories in the order of their creation. -/
theorem linearInv_run (h : Run (observedStep fb) (ServiceState.init (dbOf fb base)) trace s)
    (hbase : Created base) (hfresh : FreshFor (dbOf fb base) (serviceTrace trace))
    (hfault : FaultFree (serviceTrace trace)) :
    ∃ order rows, LinearInv fb base trace s order rows := by
  induction h with
  | nil => exact ⟨[], base, ⟨rowsInv_init hbase, .init, fun t => trivial⟩⟩
  | @snoc trace s s' c o hrun hs ih =>
    obtain ⟨reply, answer⟩ := o
    rw [serviceTrace_snoc] at hfresh hfault
    obtain ⟨order, rows, hinv⟩ := ih hfresh.of_append fun e he =>
      hfault e (List.mem_append_left _ he)
    exact hinv.step hrun hfresh.of_append
      (hfault _ (List.mem_append_right _ List.mem_cons_self)) hs

end Run

theorem created_nil : Created [] where
  nodup := List.nodup_nil
  root_not_mem := List.not_mem_nil
  parents before row after heq := by simp at heq

/-- Every history of a namenode that starts empty is linearizable: there is an order of
the requests, each between its acceptance and its response, in which they answer what they
have answered when each of them runs alone. -/
theorem namenode_linearizable {fb : FlatBuffers} {trace : ObservedTrace} {s : ServiceState}
    (h : Run (observedStep fb) (ServiceState.init .empty) trace s)
    (hfresh : FreshIds (serviceTrace trace)) (hfault : FaultFree (serviceTrace trace)) :
    ∃ order, Linearizes (Atomic fb) .empty (requestHistory trace) order s.kv.store.db := by
  have hrun : Run (observedStep fb) (ServiceState.init (dbOf fb [])) trace s := h
  obtain ⟨order, rows, hinv⟩ := linearInv_run hrun created_nil hfresh.freshFor hfault
  refine ⟨order, ?_⟩
  rw [hinv.standsFor.db_eq]
  exact hinv.linearizes.mapState (dbOf fb) fun rows req resp rows' hstep => hstep.atomic

/-- A directory is created while two lookups of it run: one has taken its snapshot before
the batch is written, and one takes it afterwards. Both respond after the `Mkdirs`. -/
def overlappingLookups : List ServiceCall :=
  let lookup : Event := .accept (.lookup ⟨1, ascii "a"⟩)
  [⟨0, .accept (.mkdirs ⟨1, ascii "a", 0x1ED, 0, 0⟩)⟩, ⟨1, lookup⟩, ⟨2, lookup⟩,
   ⟨0, .takeSnapshot⟩, ⟨1, .takeSnapshot⟩, ⟨0, .call none⟩, ⟨0, .next (.ok ⟨2⟩)⟩,
   ⟨0, .nowNs 70⟩, ⟨0, .call none⟩, ⟨0, .call none⟩, ⟨0, .call none⟩, ⟨0, .call none⟩,
   ⟨0, .drawCommit⟩, ⟨0, .isConflictFree⟩, ⟨0, .writeBatch true⟩, ⟨2, .takeSnapshot⟩,
   ⟨1, .call none⟩, ⟨2, .call none⟩]

/-- Its trace from the empty database. -/
def overlappingLookupsTrace : ObservedTrace :=
  ((replay (observedStep .sample) (ServiceState.init .empty) overlappingLookups).map
    Prod.fst).getD []

/-- One lookup misses the directory and the other finds it. -/
theorem namenode_linearizable_overlappingLookups :
    overlappingLookupsTrace.filterMap (fun e => e.2.2.map Response.errorCode) =
        [0, StatusCode.notFoundError.toInt32, 0] ∧
      ∃ s, Run (observedStep .sample) (ServiceState.init .empty) overlappingLookupsTrace s ∧
        ∃ order, Linearizes (Atomic .sample) .empty (requestHistory overlappingLookupsTrace) order
          s.kv.store.db := by
  obtain ⟨s, hrun⟩ : ∃ s, Run (observedStep .sample) (ServiceState.init .empty)
      overlappingLookupsTrace s := exists_run_of_replay overlappingLookups rfl
  exact ⟨by decide, s, hrun, namenode_linearizable hrun (by decide) (by decide)⟩

end RocketFS
