import RocketFS.Client.Filesystem

/-!
# A mounted file system

The FUSE client and the namenode together. An operation of the kernel sends its request,
the namenode accepts it at some later moment, handles it in steps that interleave with
those of other requests, and its response is taken off the completion queue of the client
at some moment after that. An RPC may fail at any time, whether or not the namenode has
got the request. The kernel's name for an operation also names its thread. The
`fuse_file_info` of an `opendir`, which libfuse keeps for the time of the callback only, is
taken to be there still when the response arrives.

Seen from the kernel, a mount is one file system on which the operations take place one
after the other (`mount_linearizable`): each of them somewhere between the request of the
kernel and the reply to it, also one that was never replied to because its RPC failed.

## Main definitions

* `mountStep` — the client, the network and the namenode
* `mountHistory` — what the kernel sees of the operations that ask the namenode

## Main results

* `mount_linearizable` — a mount is a linearizable file system
-/

namespace RocketFS

/-! ### The system -/

/-- The client, the namenode, and the operations whose request has been sent. -/
structure MountState where
  client : ClientState
  namenode : ServiceState
  sent : FuseReq → Option FuseOp

/-- A client that has just been started, and an empty namenode. -/
def MountState.init : MountState := ⟨ClientState.init, ServiceState.init .empty, fun _ => none⟩

inductive MountInput
  /-- The kernel makes a request. -/
  | start (fuseReq : FuseReq) (op : FuseOp)
  /-- The namenode takes a step. -/
  | serve (c : ServiceCall)
  /-- The response to an operation is taken off the queue. -/
  | complete (fuseReq : FuseReq) (ok : Bool)
  /-- The failure of an RPC is taken off the queue. -/
  | fail (fuseReq : FuseReq) (ok : Bool)
  deriving DecidableEq

/-- Which of the two has taken a step, and what came of it. -/
inductive MountOutput
  | client (input : ClientInput) (output : ClientOutput)
  | namenode (c : ServiceCall) (reply : Reply) (answer : Option Response)
  deriving DecidableEq

abbrev MountTrace := List (MountInput × MountOutput)

namespace MountState

variable (s : MountState)

/-- Let the client take a step. -/
def client? [Libfuse] (opts : FuseOptions) (input : ClientInput)
    (sent : ClientOutput → FuseReq → Option FuseOp) :
    Option (MountState × MountOutput) :=
  match clientStep opts s.client input with
  | none => none
  | some (client, output) => some (⟨client, s.namenode, sent output⟩, .client input output)

/-- A request the namenode accepts was sent. -/
def arrived (c : ServiceCall) : Bool :=
  match c.event with
  | .accept req => (s.sent c.thread).map FuseOp.req = some req
  | _ => true

/-- Let the namenode take a step. -/
def namenode? (fb : FlatBuffers) (c : ServiceCall) : Option (MountState × MountOutput) :=
  match observedStep fb s.namenode c with
  | none => none
  | some (namenode, reply, answer) =>
    some ({ s with namenode := namenode }, .namenode c reply answer)

/-- The response that waits for the client. -/
def response (fuseReq : FuseReq) : Option Response :=
  (s.namenode.thread fuseReq).bind Thread.answer

end MountState

/-- One step of the system. -/
def mountStep [Libfuse] (opts : FuseOptions) (fb : FlatBuffers) (s : MountState) :
    MountInput → Option (MountState × MountOutput)
  | .start fuseReq op =>
    s.client? opts (.start fuseReq op) fun output =>
      if output.sent.isSome then Function.update s.sent fuseReq (some op) else s.sent
  | .serve c => if s.arrived c then s.namenode? fb c else none
  | .complete fuseReq ok =>
    match s.response fuseReq with
    | none => none
    | some resp => s.client? opts (.complete fuseReq (.response resp) ok) fun _ => s.sent
  | .fail fuseReq ok => s.client? opts (.complete fuseReq .failed ok) fun _ => s.sent

/-! ### What is seen of it -/

/-- The steps of the client. -/
def MountOutput.clientPart : MountOutput → ClientTrace
  | .client input output => [(input, output)]
  | .namenode .. => []

/-- The steps of the namenode. -/
def MountOutput.namenodePart : MountOutput → ObservedTrace
  | .client .. => []
  | .namenode c reply answer => [(c, reply, answer)]

def clientTrace (trace : MountTrace) : ClientTrace := trace.flatMap fun e => e.2.clientPart

def namenodeTrace (trace : MountTrace) : ObservedTrace := trace.flatMap fun e => e.2.namenodePart

/-- What the kernel sees of a step: an operation that has asked the namenode, or the reply
to one. -/
def MountOutput.visible : MountOutput → List (Visible FuseReq FuseOp FuseReply)
  | .client (.start fuseReq op) output => if output.sent.isSome then [.invoke fuseReq op] else []
  | .client (.complete _ _ _) output => output.replies.map fun reply => .respond reply.1 reply.2
  | .namenode .. => []

/-- What the kernel sees of the operations that ask the namenode. -/
def mountHistory (trace : MountTrace) : List (Visible FuseReq FuseOp FuseReply) :=
  trace.flatMap fun e => e.2.visible

/-! ### The steps of the system -/

/-- Everything a step can do. -/
inductive MountStep [Libfuse] (opts : FuseOptions) (fb : FlatBuffers) (s s' : MountState) :
    MountInput → MountOutput → Prop
  | start {fuseReq : FuseReq} {op : FuseOp} {output : ClientOutput}
      (hclient : clientStep opts s.client (.start fuseReq op) = some (s'.client, output))
      (hnamenode : s'.namenode = s.namenode)
      (hsent : s'.sent =
        if output.sent.isSome then Function.update s.sent fuseReq (some op) else s.sent) :
      MountStep opts fb s s' (.start fuseReq op) (.client (.start fuseReq op) output)
  | serve {c : ServiceCall} {reply : Reply} {answer : Option Response} (harrived : s.arrived c)
      (hnamenode : observedStep fb s.namenode c = some (s'.namenode, reply, answer))
      (hclient : s'.client = s.client) (hsent : s'.sent = s.sent) :
      MountStep opts fb s s' (.serve c) (.namenode c reply answer)
  | complete {input : MountInput} {fuseReq : FuseReq} {outcome : RpcOutcome} {ok : Bool}
      {output : ClientOutput}
      (hresp : ∀ resp, outcome = .response resp → s.response fuseReq = some resp)
      (hclient : clientStep opts s.client (.complete fuseReq outcome ok) =
        some (s'.client, output))
      (hnamenode : s'.namenode = s.namenode) (hsent : s'.sent = s.sent) :
      MountStep opts fb s s' input (.client (.complete fuseReq outcome ok) output)

section Step

variable [Libfuse] {opts : FuseOptions} {fb : FlatBuffers} {s s' : MountState}
  {input : MountInput} {output : MountOutput}

theorem MountState.client?_inv {clientInput : ClientInput}
    {sent : ClientOutput → FuseReq → Option FuseOp}
    (h : s.client? opts clientInput sent = some (s', output)) :
    ∃ clientOutput, output = .client clientInput clientOutput ∧
      clientStep opts s.client clientInput = some (s'.client, clientOutput) ∧
      s'.namenode = s.namenode ∧ s'.sent = sent clientOutput := by
  unfold MountState.client? at h
  split at h
  · cases h
  · rename_i client clientOutput hclient
    obtain ⟨rfl, rfl⟩ := Prod.mk.inj (Option.some.inj h)
    exact ⟨clientOutput, rfl, hclient, rfl, rfl⟩

theorem mountStep_inv (h : mountStep opts fb s input = some (s', output)) :
    MountStep opts fb s s' input output := by
  cases input with
  | start fuseReq op =>
    obtain ⟨clientOutput, rfl, hclient, hnamenode, hsent⟩ := MountState.client?_inv h
    exact .start hclient hnamenode hsent
  | serve c =>
    simp only [mountStep, MountState.namenode?] at h
    split_ifs at h with harrived
    split at h
    · cases h
    · rename_i hnamenode
      obtain ⟨rfl, rfl⟩ := Prod.mk.inj (Option.some.inj h)
      exact .serve harrived hnamenode rfl rfl
  | complete fuseReq ok =>
    simp only [mountStep] at h
    split at h
    · cases h
    · rename_i resp hresp
      obtain ⟨clientOutput, rfl, hclient, hnamenode, hsent⟩ := MountState.client?_inv h
      refine .complete (fun resp' heq => ?_) hclient hnamenode hsent
      rw [hresp, RpcOutcome.response.inj heq]
  | fail fuseReq ok =>
    obtain ⟨clientOutput, rfl, hclient, hnamenode, hsent⟩ := MountState.client?_inv h
    exact .complete (fun resp heq => nomatch heq) hclient hnamenode hsent

/-- The namenode of a mount runs as a namenode. -/
theorem run_namenode {s₀ : MountState} {trace : MountTrace}
    (h : Run (mountStep opts fb) s₀ trace s) :
    Run (observedStep fb) s₀.namenode (namenodeTrace trace) s.namenode := by
  refine h.project MountState.namenode (fun e => e.2.namenodePart) fun s i s' o hs => ?_
  cases mountStep_inv hs with
  | start _ hnamenode _ => exact hnamenode ▸ .nil
  | serve _ hnamenode _ _ => exact .single hnamenode
  | complete _ _ hnamenode _ => exact hnamenode ▸ .nil

/-- The client of a mount runs as a client. -/
theorem run_client {s₀ : MountState} {trace : MountTrace}
    (h : Run (mountStep opts fb) s₀ trace s) :
    Run (clientStep opts) s₀.client (clientTrace trace) s.client := by
  refine h.project MountState.client (fun e => e.2.clientPart) fun s i s' o hs => ?_
  cases mountStep_inv hs with
  | start hclient _ _ => exact .single hclient
  | serve _ _ hclient _ => exact hclient ▸ .nil
  | complete _ hclient _ _ => exact .single hclient

end Step

/-- A response that waits for the client has been sent. -/
theorem respond_mem_requestHistory {fb : FlatBuffers} {db : Database} {trace : ObservedTrace}
    {s : ServiceState} (h : Run (observedStep fb) (ServiceState.init db) trace s) {t : TxnId}
    {resp : Response} (hanswer : (s.thread t).bind Thread.answer = some resp) :
    .respond t resp ∈ requestHistory trace := by
  induction h generalizing t resp with
  | nil => cases hanswer
  | @snoc trace s s' c o _ hs ih =>
    obtain ⟨reply, answer⟩ := o
    obtain ⟨u, event⟩ := c
    obtain ⟨hstep, rfl⟩ := observedStep_inv hs
    rw [requestHistory_snoc, List.mem_append]
    by_cases ht : t = u
    · -- the answer of the thread that takes the step is observed at this step
      subst ht
      refine .inr ?_
      rw [hanswer, visibleOf]
      exact List.mem_append_right _ List.mem_cons_self
    · obtain ⟨_, _, _, _, _, hother⟩ := serviceStep_inv hstep
      exact .inl (ih (hother t ht ▸ hanswer))

/-! ### The account of the operations -/

/-- The reply to an operation is what `Finish` has made of a response of the namenode. -/
def AnsweredWith [Libfuse] (opts : FuseOptions) (trace : MountTrace)
    (sent : FuseReq → Option FuseOp) (t : FuseReq) (reply : FuseReply) : Prop :=
  ∃ op resp handles handles' ok output, sent t = some op ∧
    .respond t resp ∈ requestHistory (namenodeTrace trace) ∧
    op.finish opts handles (.response resp) = some (.ok (handles', .answer resp reply)) ∧
    (.complete t (.response resp) ok, output) ∈ clientTrace trace ∧ (t, reply) ∈ output.replies

/-- What is known of the operations that ask the namenode: where they stand in the history
of the kernel and in that of the namenode. -/
structure MountInv [Libfuse] (opts : FuseOptions) (trace : MountTrace) (s : MountState) :
    Prop where
  invoked : ∀ t op, .invoke t op ∈ mountHistory trace ↔ s.sent t = some op
  accepted : ∀ t req, .invoke t req ∈ requestHistory (namenodeTrace trace) →
    ∃ op, s.sent t = some op ∧ op.req = req
  waiting : ∀ t op, s.client.op t = some (.waiting op) → s.sent t = some op
  new : ∀ t, s.client.op t = none → s.sent t = none
  responded : ∀ t reply, .respond t reply ∈ mountHistory trace →
    AnsweredWith opts trace s.sent t reply
  realTime : ∀ t reply u op, [.respond t reply, .invoke u op].Sublist (mountHistory trace) →
    ∀ req, .invoke u req ∈ requestHistory (namenodeTrace trace) →
      ∃ resp, [.respond t resp, .invoke u req].Sublist (requestHistory (namenodeTrace trace))

theorem mountInv_init [Libfuse] (opts : FuseOptions) : MountInv opts [] MountState.init where
  invoked t op := by simp [mountHistory, MountState.init]
  accepted t req h := absurd h List.not_mem_nil
  waiting t op h := by cases h
  new t _ := rfl
  responded t reply h := absurd h List.not_mem_nil
  realTime t reply u op h := by cases h

section Snoc

variable {trace : MountTrace} {input : MountInput}

theorem mountHistory_snoc (output : MountOutput) :
    mountHistory (trace ++ [(input, output)]) = mountHistory trace ++ output.visible := by
  simp [mountHistory]

theorem namenodeTrace_snoc (output : MountOutput) :
    namenodeTrace (trace ++ [(input, output)]) = namenodeTrace trace ++ output.namenodePart := by
  simp [namenodeTrace]

theorem clientTrace_snoc (output : MountOutput) :
    clientTrace (trace ++ [(input, output)]) = clientTrace trace ++ output.clientPart := by
  simp [clientTrace]

end Snoc

/-- The operations that are waiting after a step were waiting before it, and what has not
been started had not been. -/
def ClientState.Keeps (s s' : ClientState) : Prop :=
  (∀ u op, s'.op u = some (.waiting op) → s.op u = some (.waiting op)) ∧
    ∀ u, s'.op u = none → s.op u = none

theorem ClientState.Keeps.of_eq {s s' : ClientState} (h : s'.op = s.op) : s.Keeps s' :=
  ⟨fun _ _ hu => h ▸ hu, fun _ hu => h ▸ hu⟩

theorem ClientState.Keeps.of_completed {s s' : ClientState} {t : FuseReq}
    (h : s'.op = Function.update s.op t (some .completed)) : s.Keeps s' :=
  ⟨(completed_ops h).1, fun u hu => ((completed_ops h).2 u hu).2⟩

section Account

variable [Libfuse] {opts : FuseOptions} {fb : FlatBuffers} {s s' : MountState}
  {trace : MountTrace} {input : MountInput}

/-- An answer stays one. -/
theorem AnsweredWith.snoc {sent sent' : FuseReq → Option FuseOp} {t : FuseReq} {reply : FuseReply}
    (h : AnsweredWith opts trace sent t reply)
    (hsent : ∀ u op, sent u = some op → sent' u = some op)
    (output : MountOutput) : AnsweredWith opts (trace ++ [(input, output)]) sent' t reply := by
  obtain ⟨op, resp, handles, handles', ok, o, hop, hrespond, hfinish, hmem, hreply⟩ := h
  refine ⟨op, resp, handles, handles', ok, o, hsent t op hop, ?_, hfinish, ?_, hreply⟩
  · rw [namenodeTrace_snoc, requestHistory, List.flatMap_append]
    exact List.mem_append_left _ hrespond
  · rw [clientTrace_snoc]
    exact List.mem_append_left _ hmem

/-- The client takes a step that sends nothing, and may reply to one operation. -/
theorem MountInv.step_client (h : MountInv opts trace s) {clientInput : ClientInput}
    {output : ClientOutput} {replies : List (Visible FuseReq FuseOp FuseReply)}
    (hvisible : (MountOutput.client clientInput output).visible = replies)
    (hreplies : ∀ v ∈ replies, ∃ t reply, v = .respond t reply ∧
      AnsweredWith opts (trace ++ [(input, .client clientInput output)]) s.sent t reply)
    (hlength : replies.length ≤ 1) (hkeeps : s.client.Keeps s'.client) (hsent : s'.sent = s.sent) :
    MountInv opts (trace ++ [(input, .client clientInput output)]) s' := by
  have hnamenode : namenodeTrace (trace ++ [(input, .client clientInput output)]) =
      namenodeTrace trace := by
    rw [namenodeTrace_snoc]
    exact List.append_nil _
  -- the step adds replies and no invocation
  have hinvoke : ∀ t op, .invoke t op ∈ mountHistory trace ++ replies ↔
      .invoke t op ∈ mountHistory trace := by
    intro t op
    rw [List.mem_append, or_iff_left]
    intro hmem
    obtain ⟨_, _, heq, _⟩ := hreplies _ hmem
    cases heq
  have hhistory : mountHistory (trace ++ [(input, .client clientInput output)]) =
      mountHistory trace ++ replies := by
    rw [mountHistory_snoc, hvisible]
  refine ⟨?_, ?_, ?_, ?_, ?_, ?_⟩
  · intro t op
    rw [hhistory, hinvoke, hsent]
    exact h.invoked t op
  · rw [hnamenode, hsent]
    exact h.accepted
  · intro t op hwaiting
    rw [hsent]
    exact h.waiting t op (hkeeps.1 t op hwaiting)
  · intro t hnone
    rw [hsent]
    exact h.new t (hkeeps.2 t hnone)
  · intro t reply hmem
    rw [hhistory, List.mem_append] at hmem
    rw [hsent]
    rcases hmem with hold | hnew
    · exact (h.responded t reply hold).snoc (fun u op hu => hu) _
    · obtain ⟨_, _, heq, hanswered⟩ := hreplies _ hnew
      cases heq
      exact hanswered
  · intro t reply u op hpair req hreq
    rw [hhistory] at hpair
    rw [hnamenode] at hreq ⊢
    refine h.realTime t reply u op ?_ req hreq
    -- a reply at the end is no invocation
    match replies, hlength, hreplies, hpair with
    | [], _, _, hpair => rwa [List.append_nil] at hpair
    | [v], _, hreplies, hpair =>
      rcases pair_sublist_snoc.mp hpair with hold | ⟨_, heq⟩
      · exact hold
      · obtain ⟨_, _, hv, _⟩ := hreplies v List.mem_cons_self
        rw [hv] at heq
        cases heq

/-- The client takes a step of which the kernel sees nothing. -/
theorem MountInv.step_silent (h : MountInv opts trace s) {clientInput : ClientInput}
    {output : ClientOutput} (hvisible : (MountOutput.client clientInput output).visible = [])
    (hkeeps : s.client.Keeps s'.client) (hsent : s'.sent = s.sent) :
    MountInv opts (trace ++ [(input, .client clientInput output)]) s' :=
  h.step_client hvisible (fun _ hv => absurd hv List.not_mem_nil) (Nat.zero_le 1) hkeeps hsent

/-- An operation is sent. -/
theorem MountInv.step_sent (h : MountInv opts trace s) {t : FuseReq} {op : FuseOp}
    {output : ClientOutput} (hnew : s.client.op t = none) (houtput : output.sent = some op.req)
    (hops : s'.client.op = Function.update s.client.op t (some (.waiting op)))
    (hsent : s'.sent = Function.update s.sent t (some op)) :
    MountInv opts (trace ++ [(input, .client (.start t op) output)]) s' := by
  have hnamenode : namenodeTrace (trace ++ [(input, .client (.start t op) output)]) =
      namenodeTrace trace := by
    rw [namenodeTrace_snoc]
    exact List.append_nil _
  have hhistory : mountHistory (trace ++ [(input, .client (.start t op) output)]) =
      mountHistory trace ++ [.invoke t op] := by
    rw [mountHistory_snoc, MountOutput.visible, houtput]
    rfl
  -- the name is new, so what is known of the other operations is not touched
  have hfresh : s.sent t = none := h.new t hnew
  have hold : ∀ u op', s.sent u = some op' → s'.sent u = some op' := by
    intro u op' hu
    rw [hsent, Function.update_of_ne]
    · exact hu
    · rintro rfl
      rw [hfresh] at hu
      cases hu
  refine ⟨?_, ?_, ?_, ?_, ?_, ?_⟩
  · intro u op'
    rw [hhistory, List.mem_append, h.invoked, List.mem_singleton]
    constructor
    · rintro (hu | heq)
      · exact hold u op' hu
      · cases heq
        rw [hsent, Function.update_self]
    · intro hu
      rw [hsent] at hu
      rcases update_cases hu with ⟨rfl, heq⟩ | ⟨_, heq⟩
      · cases heq
        exact .inr rfl
      · exact .inl heq
  · intro u req hu
    rw [hnamenode] at hu
    obtain ⟨op', hop', hreq⟩ := h.accepted u req hu
    exact ⟨op', hold u op' hop', hreq⟩
  · intro u op' hu
    rw [hops] at hu
    rcases update_cases hu with ⟨rfl, heq⟩ | ⟨_, heq⟩
    · cases heq
      rw [hsent, Function.update_self]
    · exact hold u op' (h.waiting u op' heq)
  · intro u hu
    rw [hops] at hu
    rcases update_cases hu with ⟨_, heq⟩ | ⟨hne, heq⟩
    · cases heq
    · rw [hsent, Function.update_of_ne hne]
      exact h.new u heq
  · intro u reply hmem
    rw [hhistory, List.mem_append, List.mem_singleton] at hmem
    exact (h.responded u reply (hmem.resolve_right nofun)).snoc hold _
  · intro v reply u op' hpair req hreq
    rw [hhistory] at hpair
    rw [hnamenode] at hreq ⊢
    rcases pair_sublist_snoc.mp hpair with hbefore | ⟨_, heq⟩
    · exact h.realTime v reply u op' hbefore req hreq
    · -- the namenode has not seen what is only now being sent
      obtain ⟨rfl, _⟩ := Visible.invoke.inj heq
      obtain ⟨op', hop', _⟩ := h.accepted _ req hreq
      rw [hfresh] at hop'
      cases hop'

/-- The namenode takes a step. -/
theorem MountInv.step_serve (h : MountInv opts trace s) {c : ServiceCall} {reply : Reply}
    {answer : Option Response} (harrived : s.arrived c) (hclient : s'.client = s.client)
    (hsent : s'.sent = s.sent) :
    MountInv opts (trace ++ [(input, .namenode c reply answer)]) s' := by
  have hhistory : mountHistory (trace ++ [(input, .namenode c reply answer)]) =
      mountHistory trace := by
    rw [mountHistory_snoc]
    exact List.append_nil _
  have hnamenode : requestHistory (namenodeTrace (trace ++ [(input, .namenode c reply answer)])) =
      requestHistory (namenodeTrace trace) ++ visibleOf (c, reply, answer) := by
    rw [namenodeTrace_snoc]
    exact requestHistory_snoc
  have hsub : (requestHistory (namenodeTrace trace)).Sublist
      (requestHistory (namenodeTrace trace) ++ visibleOf (c, reply, answer)) :=
    List.sublist_append_left _ _
  refine ⟨?_, ?_, ?_, ?_, ?_, ?_⟩
  · rw [hhistory, hsent]
    exact h.invoked
  · intro t req hmem
    rw [hnamenode, List.mem_append] at hmem
    rw [hsent]
    rcases hmem with hold | hnew
    · exact h.accepted t req hold
    · -- a request that is accepted was sent
      obtain ⟨u, event⟩ := c
      cases event <;> simp [visibleOf, invocationOf] at hnew
      obtain ⟨rfl, rfl⟩ := hnew
      exact Option.map_eq_some_iff.mp (of_decide_eq_true harrived)
  · rw [hclient, hsent]
    exact h.waiting
  · rw [hclient, hsent]
    exact h.new
  · intro t r hmem
    rw [hhistory] at hmem
    rw [hsent]
    exact (h.responded t r hmem).snoc (fun u op hu => hu) _
  · intro t r u op hpair req hreq
    rw [hhistory] at hpair
    rw [hnamenode, List.mem_append] at hreq
    rw [hnamenode]
    rcases hreq with hold | hnew
    · obtain ⟨resp, hbefore⟩ := h.realTime t r u op hpair req hold
      exact ⟨resp, hbefore.trans hsub⟩
    · -- what the kernel has seen has been answered before this request arrives
      obtain ⟨_, resp, _, _, _, _, _, hrespond, _⟩ :=
        h.responded t r (hpair.subset List.mem_cons_self)
      exact ⟨resp, (List.singleton_sublist.mpr hrespond).append (List.singleton_sublist.mpr hnew)⟩

/-- The account stays right. -/
theorem MountInv.step {output : MountOutput}
    (hrun : Run (mountStep opts fb) MountState.init trace s)
    (h : MountInv opts trace s) (hs : mountStep opts fb s input = some (s', output)) :
    MountInv opts (trace ++ [(input, output)]) s' := by
  cases mountStep_inv hs with
  | @start t op output hclient _ hsent =>
    obtain ⟨_, hmove⟩ := clientStep_move hclient
    cases hmove with
    | crashed _ hops => exact h.step_silent rfl (.of_eq hops) hsent
    | sent hnew hops => exact h.step_sent hnew rfl hops hsent
    | served _ hops => exact h.step_silent rfl (.of_completed hops) hsent
  | serve harrived _ hclient hsent => exact h.step_serve harrived hclient hsent
  | @complete _ t outcome ok output hresp hclient _ hsent =>
    obtain ⟨_, hmove⟩ := clientStep_move hclient
    cases hmove with
    | crashed _ hops => exact h.step_silent rfl (.of_eq hops) hsent
    | failed _ hops => exact h.step_silent rfl (.of_completed hops) hsent
    | @answered _ op _ resp reply hop hops hfinish =>
      refine h.step_client rfl (fun v hv => ?_) le_rfl (.of_completed hops) hsent
      refine ⟨t, reply, List.mem_singleton.mp hv, op, resp, _, _, ok,
        { replies := [(t, reply)], deleted := resp.errorCode = 0 }, h.waiting t op hop, ?_,
        hfinish, ?_, List.mem_cons_self⟩
      · rw [namenodeTrace_snoc, requestHistory, List.flatMap_append]
        exact List.mem_append_left _
          (respond_mem_requestHistory (run_namenode hrun) (hresp resp rfl))
      · rw [clientTrace_snoc]
        exact List.mem_append_right _ List.mem_cons_self

theorem mountInv_run (h : Run (mountStep opts fb) MountState.init trace s) :
    MountInv opts trace s :=
  h.invariant (mountInv_init opts) fun _ _ _ _ _ hrun hinv hs => hinv.step hrun hs

end Account

/-- What the kernel sees as the reply to an operation is one the client made. -/
theorem mem_repliesTo_of_respond {trace : MountTrace} {t : FuseReq} {reply : FuseReply}
    (h : .respond t reply ∈ mountHistory trace) : reply ∈ repliesTo t (clientTrace trace) := by
  obtain ⟨⟨input, output⟩, hmem, hvisible⟩ := List.mem_flatMap.mp h
  cases output with
  | namenode => cases hvisible
  | client clientInput output =>
    have hreply : (t, reply) ∈ output.replies := by
      cases clientInput with
      | start u op =>
        simp only [MountOutput.visible] at hvisible
        split_ifs at hvisible
        · cases List.mem_singleton.mp hvisible
        · cases hvisible
      | complete u outcome ok =>
        obtain ⟨⟨v, r⟩, hr, heq⟩ := List.mem_map.mp hvisible
        cases heq
        exact hr
    refine List.mem_flatMap.mpr ⟨(clientInput, output), ?_, ?_⟩
    · exact List.mem_flatMap.mpr ⟨_, hmem, List.mem_cons_self⟩
    · exact List.mem_map.mpr ⟨(t, reply), List.mem_filter.mpr ⟨hreply, by simp⟩, rfl⟩

/-- An operation is replied to at most once. -/
theorem reply_unique [Libfuse] {opts : FuseOptions} {fb : FlatBuffers} {s : MountState}
    {trace : MountTrace} (h : Run (mountStep opts fb) MountState.init trace s) {t : FuseReq}
    {reply reply' : FuseReply} (hreply : .respond t reply ∈ mountHistory trace)
    (hreply' : .respond t reply' ∈ mountHistory trace) : reply = reply' := by
  have hreplied : Replied t (clientTrace trace) (s.client.op t) := replied_run (run_client h)
  have hmem := mem_repliesTo_of_respond hreply
  have hmem' := mem_repliesTo_of_respond hreply'
  have hne : repliesTo t (clientTrace trace) ≠ [] := List.ne_nil_of_mem hmem
  obtain ⟨r, hone⟩ : ∃ r, repliesTo t (clientTrace trace) = [r] := by
    rcases hop : s.client.op t with _ | _ | _ <;> rw [hop] at hreplied
    · exact absurd hreplied.1 hne
    · exact absurd hreplied.1 hne
    · rcases hreplied with ⟨hlength, _⟩ | ⟨hnone, _⟩
      · exact List.length_eq_one_iff.mp hlength
      · exact absurd hnone hne
  rw [hone] at hmem hmem'
  rw [List.mem_singleton.mp hmem, List.mem_singleton.mp hmem']

/-! ### One file system -/

/-- RocksDB reports no errors, the ids the namenode draws are fresh, and every directory
that is created has a name, which is valid as text in a message. -/
structure Undisturbed (trace : MountTrace) : Prop where
  fresh : FreshIds (serviceTrace (namenodeTrace trace))
  faultFree : FaultFree (serviceTrace (namenodeTrace trace))
  names : ∀ e ∈ serviceTrace (namenodeTrace trace),
    e.1.event.Names fun name => name ≠ [] ∧ validUtf8 name

instance (trace : MountTrace) : Decidable (Undisturbed trace) :=
  decidable_of_iff (FreshIds (serviceTrace (namenodeTrace trace)) ∧
    FaultFree (serviceTrace (namenodeTrace trace)) ∧
    ∀ e ∈ serviceTrace (namenodeTrace trace),
      e.1.event.Names fun name => name ≠ [] ∧ validUtf8 name)
    ⟨fun h => ⟨h.1, h.2.1, h.2.2⟩, fun h => ⟨h.1, h.2, h.3⟩⟩

section Linearizable

variable [Libfuse] {opts : FuseOptions} {fb : FlatBuffers} {s : MountState} {trace : MountTrace}

/-- The order of the operations explains their history, and leaves the directories that the
database holds. -/
structure MountOrder (opts : FuseOptions) (fb : FlatBuffers) (trace : MountTrace)
    (s : MountState) (order : List (Effect FuseReq FuseOp FuseReply)) (rows : List Dir) :
    Prop where
  db_eq : s.namenode.kv.store.db = dbOf fb rows
  linearizes : Linearizes (FsStep opts (Opened (clientTrace trace))) [] (mountHistory trace) order
    rows

/-- The order is that in which the requests take effect at the namenode. -/
theorem mountOrder_run (h : Run (mountStep opts fb) MountState.init trace s)
    (hundisturbed : Undisturbed trace) :
    ∃ order rows, MountOrder opts fb trace s order rows := by
  have hinv := mountInv_run h
  have hopened := openedInv_run (run_client h)
  -- the namenode is linearizable on its own, and its order is refined to one of operations
  have hnamenode : Run (observedStep fb) (ServiceState.init (dbOf fb [])) (namenodeTrace trace)
      s.namenode := run_namenode h
  obtain ⟨order, rows, hlinear⟩ :=
    linearInv_run hnamenode created_nil hundisturbed.fresh.freshFor hundisturbed.faultFree
  have hlin := hlinear.linearizes
  -- an effect at the namenode and the operation it belongs to, with the reply if there is one
  let R : Effect TxnId Request Response → Effect FuseReq FuseOp FuseReply → Prop := fun e e' =>
    e'.op = e.op ∧ s.sent e.op = some e'.input ∧
      ∀ reply, .respond e.op reply ∈ mountHistory trace → e'.output = reply
  have hsteps : ∀ e ∈ order, ∀ rows rows', FsRows rows →
      NamespaceStep fb rows e.input e.output rows' → FsRows rows' ∧ ∃ e', R e e' ∧
        FsStep opts (Opened (clientTrace trace)) rows e'.input e'.output rows' := by
    intro e he rows rows' hrows hstep
    have hinvoked := hlin.invoked e he
    refine ⟨hrows.of_step hstep fun req heq => ?_, ?_⟩
    · rw [heq] at hinvoked
      obtain ⟨reply, haccept⟩ := invoke_mem_requestHistory.mp hinvoked
      exact hundisturbed.names _ haccept
    obtain ⟨op, hop, hreq⟩ := hinv.accepted e.op e.input hinvoked
    rw [← hreq] at hstep
    by_cases hreplied : ∃ reply, .respond e.op reply ∈ mountHistory trace
    · -- the kernel's reply was made of this response
      obtain ⟨reply, hmem⟩ := hreplied
      obtain ⟨op', resp, handles, handles', ok, output, hop', hrespond, hfinish, hcomplete,
        hreply⟩ :=
        hinv.responded e.op reply hmem
      obtain rfl := Option.some.inj (hop.symm.trans hop')
      obtain rfl : e.output = resp := hlin.output_eq he hrespond
      refine ⟨⟨e.op, op, reply⟩, ⟨rfl, hop, fun reply' => reply_unique h hmem⟩, ?_⟩
      refine fsStep_of_namespaceStep hrows hstep hfinish fun fh cache page hfh hpage hcache => ?_
      rw [hpage] at hcomplete
      exact hopened.unique fh cache _ hcache ⟨e.op, page, ok, output, hcomplete, hfh ▸ hreply, rfl⟩
    · -- without a reply, it may be one with a handle that has not been opened
      obtain ⟨handles, handles', reply, hfinish, hnext⟩ :=
        exists_finish opts s.client.handles.nextFh hrows hstep
      refine ⟨⟨e.op, op, reply⟩, ⟨rfl, hop, fun reply' hmem => absurd ⟨reply', hmem⟩ hreplied⟩, ?_⟩
      refine fsStep_of_namespaceStep hrows hstep hfinish fun fh cache page hfh _ hcache => ?_
      exact absurd (hopened.lt fh cache hcache) (hnext fh hfh ▸ lt_irrefl _)
  have hrefined : ∃ order', Linearizes (FsStep opts (Opened (clientTrace trace))) []
      (mountHistory trace) order' rows := by
    refine hlin.refine id (R := R) (fun e e' hR => hR.1) ⟨by simp, by simp, by simp⟩ hsteps ?_ ?_ ?_
    · exact fun e he e' hR => (hinv.invoked _ _).mpr hR.2.1
    · intro t reply hmem
      obtain ⟨_, resp, _, _, _, _, _, hrespond, _⟩ := hinv.responded t reply hmem
      refine ⟨⟨resp, hrespond⟩, fun e he e' hR heq => hR.2.2 reply ?_⟩
      rw [heq]
      exact hmem
    · rintro t reply u op hpair ⟨req, hreq⟩
      obtain ⟨resp, hbelow⟩ := hinv.realTime t reply u op hpair req hreq
      exact ⟨resp, req, hbelow⟩
  obtain ⟨order', horder'⟩ := hrefined
  exact ⟨order', rows, hlinear.standsFor.db_eq, horder'⟩

/-- A mount is a linearizable file system: in every run there is an order of the
operations, each between the request of the kernel and the reply to it, in which they
reply what they have replied, and the directories they create are those the database
holds. A handle is opened on what its directory was when the `opendir` took place. -/
theorem mount_linearizable (h : Run (mountStep opts fb) MountState.init trace s)
    (hundisturbed : Undisturbed trace) :
    ∃ order rows, s.namenode.kv.store.db = dbOf fb rows ∧
      Linearizes (FsStep opts (Opened (clientTrace trace))) [] (mountHistory trace) order
        rows := by
  obtain ⟨order, rows, hdb, hlin⟩ := mountOrder_run h hundisturbed
  exact ⟨order, rows, hdb, hlin⟩

end Linearizable

section Sample

open scoped Sample

/-- A user creates a directory while it is looked up. After the reply to the `mkdir` its
attributes are asked for, it is looked up again, and the user tries to open it. -/
def createThenRead : List MountInput :=
  let a : Bytes := ascii "a"
  let serve (t : FuseReq) (events : List Event) : List MountInput :=
    events.map fun event => .serve ⟨t, event⟩
  [.start 0 (.mkdir 1 a 0x1ED 1000 1000), .start 1 (.lookup 1 a)] ++
    serve 0 [.accept (FuseOp.mkdir 1 a 0x1ED 1000 1000).req, .takeSnapshot, .call none,
      .next (.ok ⟨2⟩), .nowNs 5000000000] ++
    serve 1 [.accept (FuseOp.lookup 1 a).req, .takeSnapshot] ++
    serve 0 [.call none, .call none, .call none, .call none, .drawCommit, .isConflictFree,
      .writeBatch true] ++
    [.complete 0 true] ++ serve 1 [.call none] ++
    [.complete 1 true, .start 2 (.getAttr 2), .start 3 (.lookup 1 a),
      .start 4 (.openDir 2 1000 1000)] ++
    serve 4 [.accept (FuseOp.openDir 2 1000 1000).req, .takeSnapshot, .call none, .call none,
      .call none] ++
    serve 3 [.accept (FuseOp.lookup 1 a).req, .takeSnapshot, .call none] ++
    serve 2 [.accept (FuseOp.getAttr 2).req, .takeSnapshot, .call none, .call none,
      .call none] ++
    [.complete 2 true, .complete 3 true, .complete 4 true]

/-- Its trace, with the defaults of the flags. -/
def createThenReadTrace : MountTrace :=
  ((replay (mountStep {} .sample) MountState.init createThenRead).map Prod.fst).getD []

/-- The run to the end of that trace. -/
theorem exists_run_createThenRead :
    ∃ s, Run (mountStep {} .sample) MountState.init createThenReadTrace s :=
  exists_run_of_replay createThenRead rfl

/-- The reply to its `mkdir`. -/
def createThenReadEntry : FuseEntryParam :=
  toFuseEntryParam {} 2 (fsDir 1 (ascii "a") 0x1ED 1000 1000 ⟨2⟩ 5000000000).stat

/-- What the kernel sees of it: the first lookup misses the directory, the attributes have
no mode and no owner any more, and the creator of the directory may not open it. -/
def createThenReadHistory : List (Visible FuseReq FuseOp FuseReply) :=
  let attr := { createThenReadEntry.attr with stMode := 0x4000, stUid := 0, stGid := 0 }
  let attr' := { attr with stAtime := 0, stMtime := 0, stCtime := 0 }
  [.invoke 0 (.mkdir 1 (ascii "a") 0x1ED 1000 1000), .invoke 1 (.lookup 1 (ascii "a")),
    .respond 0 (.entry createThenReadEntry), .respond 1 (.err ENOENT), .invoke 2 (.getAttr 2),
    .invoke 3 (.lookup 1 (ascii "a")), .invoke 4 (.openDir 2 1000 1000),
    .respond 2 (.attr attr 0), .respond 3 (.entry { createThenReadEntry with attr := attr' }),
    .respond 4 (.err EACCES)]

theorem mountHistory_createThenRead :
    mountHistory createThenReadTrace = createThenReadHistory := by
  decide +kernel

theorem undisturbed_createThenRead : Undisturbed createThenReadTrace := by
  decide +kernel

/-- There is an order for the operations of this run. -/
theorem mount_linearizable_createThenRead :
    ∃ order rows, Linearizes (FsStep {} (Opened (clientTrace createThenReadTrace))) []
      createThenReadHistory order rows := by
  obtain ⟨s, hrun⟩ := exists_run_createThenRead
  obtain ⟨order, rows, _, hlin⟩ := mount_linearizable hrun undisturbed_createThenRead
  exact ⟨order, rows, mountHistory_createThenRead ▸ hlin⟩

end Sample

end RocketFS
