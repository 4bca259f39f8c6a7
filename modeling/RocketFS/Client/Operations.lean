import Mathlib.Data.Rat.Init
import RocketFS.Client.ReadDir

/-!
# The operations of the FUSE client and their replies

A request of the kernel becomes an operation object. Most operations send one RPC from
`Start` and are finished by the thread that takes completions off the queue; a `readdir`
whose handle still holds entries is served by `Start` itself. Operations overlap, and
their RPCs complete in any order and with any outcome, so the client is a machine whose
inputs are the requests of the kernel and the completions. Its outputs are the calls of
`fuse_reply_*`, each with the `fuse_req` it is made on, and whether the object was deleted.

An operation whose RPC fails is finished without a reply. All others are replied to
exactly once.

## Main definitions

* `FuseOp` — the operations, with what they send, how they translate an error and what
  they reply
* `FuseOp.finish` — `FuseAsyncOpBase::Finish`
* `clientStep` — the client
* `repliesTo` — the replies made on a request

## Main results

* `ClientMove`, `clientStep_move` — everything a step of the client can do
* `replied_once_iff` — when a completed operation has been replied to exactly once
-/

namespace RocketFS

/-! ### What is replied -/

/-- The options an operation reads; a `double` is a rational number. -/
structure FuseOptions where
  entryGeneration : Int32 := 0
  attrTimeoutSec : ℚ := 0
  entryTimeoutSec : ℚ := 0

/-- The members of `struct stat` that `ToLinuxStat` assigns. It leaves the others, the device
numbers and the nanoseconds among them, indeterminate. -/
structure LinuxStat where
  stIno : UInt64
  stMode : UInt32
  stNlink : UInt64
  stUid : UInt32
  stGid : UInt32
  stSize : Int64
  stAtime : Int64
  stMtime : Int64
  stCtime : Int64
  stBlksize : Int64
  stBlocks : Int64
  deriving DecidableEq

/-- `struct fuse_entry_param`. -/
structure FuseEntryParam where
  ino : UInt64
  generation : UInt64
  attr : LinuxStat
  attrTimeout : ℚ
  entryTimeout : ℚ
  deriving DecidableEq

/-- A call of a `fuse_reply_*` function. -/
inductive FuseReply
  | err (errno : ℕ)
  | entry (entry : FuseEntryParam)
  | attr (attr : LinuxStat) (attrTimeout : ℚ)
  | opened (fh : ℕ)
  | buf (dirents : List Dirent)
  deriving DecidableEq

def kSecToNs : Int64 := 1000000000

/-- `ToLinuxStat`; the fields are narrowed to the types of `struct stat`. -/
def toLinuxStat (stat : Stat) : LinuxStat where
  stIno := stat.id
  stMode := stat.mode.toUInt32
  stNlink := stat.nlink.toInt64.toUInt64
  stUid := stat.uid.toUInt32
  stGid := stat.gid.toUInt32
  stSize := stat.size
  stAtime := stat.atimeInNs / kSecToNs
  stMtime := stat.mtimeInNs / kSecToNs
  stCtime := stat.ctimeInNs / kSecToNs
  stBlksize := stat.blockSize
  stBlocks := stat.blockNum

/-- `ToFuseEntryParam`. -/
def toFuseEntryParam (opts : FuseOptions) (id : UInt64) (stat : Stat) : FuseEntryParam where
  ino := id
  generation := opts.entryGeneration.toInt64.toUInt64
  attr := toLinuxStat stat
  attrTimeout := opts.attrTimeoutSec
  entryTimeout := opts.entryTimeoutSec

/-! ### The operations -/

def EEXIST : ℕ := 17

def FuseLookupOp.toErrno : Int16 → Option ℕ := errnoFrom [(.notFoundError, ENOENT)]

def FuseGetAttrOp.toErrno : Int16 → Option ℕ := errnoFrom [(.notFoundError, ENOENT)]

def FuseMkdirOp.toErrno : Int16 → Option ℕ :=
  errnoFrom [(.permissionError, EACCES), (.alreadyExistsError, EEXIST),
    (.parentNotFoundError, ENOENT), (.parentNotDirError, ENOTDIR)]

/-- An operation with the arguments the kernel passes and the user `fuse_req_ctx` gives,
where it is asked for. -/
inductive FuseOp
  | lookup (parentId : UInt64) (name : Bytes)
  | getAttr (id : UInt64)
  | mkdir (parentId : UInt64) (name : Bytes) (mode uid gid : UInt32)
  | openDir (id : UInt64) (uid gid : UInt32)
  | readDir (id : UInt64) (size off fh : ℕ) (uid gid : UInt32)
  deriving DecidableEq

/-- How an RPC completes: the status is not ok, or there is a response. -/
inductive RpcOutcome
  | failed
  | response (resp : Response)
  deriving DecidableEq

/-- The caches of the open directory handles, by the address that `fh` holds, and the next
address. -/
structure Handles where
  cache : ℕ → Option CacheDirEntries
  nextFh : ℕ

/-- Change the cache of a handle. -/
def Handles.set (handles : Handles) (fh : ℕ) (cache : CacheDirEntries) : Handles :=
  { handles with cache := Function.update handles.cache fh (some cache) }

/-- What `Start` or `Finish` has done when it returns: the replies it has made, and whether it
has deleted the operation object. -/
structure Returned where
  replies : List FuseReply := []
  deleted : Bool := false

namespace FuseOp

/-- The request `PrepareAsyncRpcCall` sends. -/
def req : FuseOp → Request
  | .lookup parentId name => .lookup ⟨parentId, cStr name⟩
  | .getAttr id => .getInode ⟨some id⟩
  | .mkdir parentId name mode uid gid =>
    .mkdirs ⟨parentId, cStr name, (mode ||| S_IFDIR.toUInt32).toUInt64, uid, gid⟩
  | .openDir id uid gid => .listDir (FuseOpenDirOp.req id uid gid)
  | .readDir _ _ _ _ uid gid => .listDir (FuseReadDirOp.req uid gid)

def toErrno : FuseOp → Int16 → Option ℕ
  | .lookup _ _ => FuseLookupOp.toErrno
  | .getAttr _ => FuseGetAttrOp.toErrno
  | .mkdir _ _ _ _ _ => FuseMkdirOp.toErrno
  | .openDir _ _ _ => FuseOpenDirOp.toErrno
  | .readDir _ _ _ _ _ _ => FuseReadDirOp.toErrno

/-- `OnSuccess`, on a response of the kind the operation has asked for. -/
def onSuccess [Libfuse] (opts : FuseOptions) (handles : Handles) :
    FuseOp → Response → Option (Except Crash (Handles × FuseReply))
  | .lookup _ _, .lookup resp =>
    some (.ok (handles, .entry (toFuseEntryParam opts resp.id.toUInt64 (resp.stat.getD {}))))
  | .getAttr _, .getInode resp =>
    some (.ok (handles, .attr (toLinuxStat (resp.stat.getD {})) opts.attrTimeoutSec))
  | .mkdir _ _ _ _ _, .mkdirs resp =>
    some (.ok (handles, .entry (toFuseEntryParam opts resp.id (resp.stat.getD {}))))
  | .openDir _ _ _, .listDir resp =>
    let fh := handles.nextFh
    some (.ok (⟨Function.update handles.cache fh (some (FuseOpenDirOp.onSuccess resp)), fh + 1⟩,
      .opened fh))
  | .readDir _ size _ fh _ _, .listDir resp =>
    (handles.cache fh).map fun cache =>
      (FuseReadDirOp.onSuccess cache resp size).map fun (reply, cache) =>
        (handles.set fh cache,
          match reply with
          | .buf dirents => .buf dirents
          | .err errno => .err errno)
  | _, _ => none

/-- `Finish`. A failed RPC is logged and nothing else, an error is replied to, and only behind
`OnSuccess` is the object deleted. -/
def finish [Libfuse] (opts : FuseOptions) (handles : Handles) (op : FuseOp) :
    RpcOutcome → Option (Except Crash (Handles × Returned))
  | .failed => some (.ok (handles, {}))
  | .response resp =>
    if resp.errorCode ≠ 0 then
      some (.ok (handles,
        { replies := [.err ((op.toErrno (toStatusCode resp.errorCode)).getD EIO)] }))
    else
      (op.onSuccess opts handles resp).map fun result =>
        result.map fun (handles, reply) => (handles, { replies := [reply], deleted := true })

/-- `Start`, with the checks of the constructor. A `readdir` that is served from its handle is
replied to and deleted; otherwise the RPC is sent, and nothing has been done yet. A handle the
kernel passes is open. -/
def start [Libfuse] (handles : Handles) :
    FuseOp → Option (Except Crash (Handles × Option Returned))
  | .readDir _ size off fh _ _ =>
    (handles.cache fh).map fun cache => do
      check (off = cache.endOff) "(off) == (cache_dir_entries_->end_off)"
      if !cache.entries.isEmpty || !cache.hasMore then
        let (buf, cache) := cache.populateDirEntriesBuffer size
        return (handles.set fh cache, some { replies := [.buf buf], deleted := true })
      else return (handles, none)
  | _ => some (.ok (handles, none))

end FuseOp

/-! ### The client -/

/-- The kernel's name for a request. -/
abbrev FuseReq := ℕ

inductive OpPhase
  | waiting (op : FuseOp)
  | completed
  deriving DecidableEq

/-- The operations that were started, the open handles, and what has ended the process. -/
structure ClientState where
  op : FuseReq → Option OpPhase
  handles : Handles
  crash : Option Crash

def ClientState.init : ClientState := ⟨fun _ => none, ⟨fun _ => none, 1⟩, none⟩

inductive ClientInput
  /-- The kernel makes a request. -/
  | start (fuseReq : FuseReq) (op : FuseOp)
  /-- `AsyncCompleteRpc` takes the tag of an operation off the queue, with the `ok` it
  comes with. -/
  | complete (fuseReq : FuseReq) (outcome : RpcOutcome) (ok : Bool)
  deriving DecidableEq

/-- The request an input is about. -/
def ClientInput.fuseReq : ClientInput → FuseReq
  | .start fuseReq _ => fuseReq
  | .complete fuseReq _ _ => fuseReq

/-- What a step sends to the namenode, the replies it makes, and whether it deletes the
operation object. -/
structure ClientOutput where
  sent : Option Request := none
  replies : List (FuseReq × FuseReply) := []
  deleted : Bool := false
  deriving DecidableEq

abbrev ClientTrace := List (ClientInput × ClientOutput)

namespace ClientState

variable (s : ClientState) (fuseReq : FuseReq)

/-- `CreateOp`. -/
def start [Libfuse] (op : FuseOp) : Option (ClientState × ClientOutput) :=
  (op.start s.handles).map fun
    | .error crash => ({ s with crash := some crash }, {})
    | .ok (handles, some returned) =>
      ({ s with op := Function.update s.op fuseReq (some .completed), handles := handles },
        { replies := returned.replies.map fun reply => (fuseReq, reply)
          deleted := returned.deleted })
    | .ok (handles, none) =>
      ({ s with op := Function.update s.op fuseReq (some (.waiting op)), handles := handles },
        { sent := some op.req })

/-- The completion of an operation; the queue's `ok` is checked behind `Finish`. -/
def complete [Libfuse] (opts : FuseOptions) (op : FuseOp) (outcome : RpcOutcome) (ok : Bool) :
    Option (ClientState × ClientOutput) :=
  (op.finish opts s.handles outcome).map fun
    | .error crash => ({ s with crash := some crash }, {})
    | .ok (handles, returned) =>
      (⟨Function.update s.op fuseReq (some .completed), handles,
          if ok then none else some (.check "ok")⟩,
        { replies := returned.replies.map fun reply => (fuseReq, reply)
          deleted := returned.deleted })

end ClientState

/-- A step of the client: it takes none after a crash, every request of the kernel is a
new one, and a tag is on the queue once. -/
def clientStep [Libfuse] (opts : FuseOptions) (s : ClientState) (input : ClientInput) :
    Option (ClientState × ClientOutput) :=
  if s.crash.isSome then none
  else match input with
    | .start fuseReq op => if s.op fuseReq = none then s.start fuseReq op else none
    | .complete fuseReq outcome ok =>
      match s.op fuseReq with
      | some (.waiting op) => s.complete fuseReq opts op outcome ok
      | _ => none

/-! ### What a step does -/

/-- One reply; behind a success the object is deleted. -/
def Returned.answer (resp : Response) (reply : FuseReply) : Returned :=
  ⟨[reply], resp.errorCode = 0⟩

@[simp] theorem Returned.answer_inj {resp : Response} {reply reply' : FuseReply} :
    Returned.answer resp reply = .answer resp reply' ↔ reply = reply' := by
  simp [Returned.answer]

/-- Everything a step can do: a failed `CHECK` comes before any reply, and a failed RPC runs
into none. -/
inductive ClientMove [Libfuse] (opts : FuseOptions) (s s' : ClientState) :
    ClientInput → ClientOutput → Prop
  | crashed {input : ClientInput} (hcrash : s'.crash ≠ none) (hops : s'.op = s.op)
      (hhandles : s'.handles = s.handles) (hinput : ∀ t ok, input ≠ .complete t .failed ok) :
      ClientMove opts s s' input {}
  | sent {t : FuseReq} {op : FuseOp} (hnew : s.op t = none)
      (hops : s'.op = Function.update s.op t (some (.waiting op)))
      (hhandles : s'.handles = s.handles)
      (hmore : ∀ id size off fh uid gid, op = .readDir id size off fh uid gid →
        ∃ cache, s.handles.cache fh = some cache ∧ cache.entries = [] ∧ cache.hasMore = true) :
      ClientMove opts s s' (.start t op) { sent := some op.req }
  | served {t : FuseReq} {id : UInt64} {size off fh : ℕ} {uid gid : UInt32}
      {cache : CacheDirEntries} (hnew : s.op t = none)
      (hops : s'.op = Function.update s.op t (some .completed))
      (hcache : s.handles.cache fh = some cache)
      (hhandles : s'.handles = s.handles.set fh (cache.populateDirEntriesBuffer size).2) :
      ClientMove opts s s' (.start t (.readDir id size off fh uid gid))
        { replies := [(t, .buf (cache.populateDirEntriesBuffer size).1)], deleted := true }
  | failed {t : FuseReq} {op : FuseOp} {ok : Bool} (hwaiting : s.op t = some (.waiting op))
      (hops : s'.op = Function.update s.op t (some .completed))
      (hhandles : s'.handles = s.handles) : ClientMove opts s s' (.complete t .failed ok) {}
  | answered {t : FuseReq} {op : FuseOp} {ok : Bool} {resp : Response} {reply : FuseReply}
      (hwaiting : s.op t = some (.waiting op))
      (hops : s'.op = Function.update s.op t (some .completed))
      (hfinish : op.finish opts s.handles (.response resp) =
        some (.ok (s'.handles, .answer resp reply))) :
      ClientMove opts s s' (.complete t (.response resp) ok)
        { replies := [(t, reply)], deleted := resp.errorCode = 0 }

section Moves

variable [Libfuse] {opts : FuseOptions} {s s' : ClientState} {input : ClientInput}
  {output : ClientOutput} {op : FuseOp}

/-- An error code goes to the kernel as an `errno`, and the object is not deleted. -/
theorem FuseOp.finish_of_error {handles : Handles} {resp : Response}
    (hcode : resp.errorCode ≠ 0) :
    op.finish opts handles (.response resp) = some (.ok (handles,
      .answer resp (.err ((op.toErrno (toStatusCode resp.errorCode)).getD EIO)))) := by
  rw [finish, if_pos hcode, Returned.answer, decide_eq_false hcode]

/-- Behind `OnSuccess` the object is deleted. -/
theorem FuseOp.finish_of_success {handles : Handles} {resp : Response}
    (hcode : resp.errorCode = 0) :
    op.finish opts handles (.response resp) = (op.onSuccess opts handles resp).map fun result =>
      result.map fun (handles, reply) => (handles, .answer resp reply) := by
  simp only [finish, if_neg (not_not.mpr hcode), Returned.answer, decide_eq_true hcode]

theorem FuseOp.onSuccess_of_finish {handles handles' : Handles} {resp : Response}
    {reply : FuseReply} (hcode : resp.errorCode = 0)
    (h : op.finish opts handles (.response resp) = some (.ok (handles', .answer resp reply))) :
    op.onSuccess opts handles resp = some (.ok (handles', reply)) := by
  rw [finish_of_success hcode] at h
  obtain ⟨result, hsuccess, hmap⟩ := Option.map_eq_some_iff.mp h
  obtain ⟨⟨_, _⟩, rfl, hpair⟩ := map_ok hmap
  obtain ⟨rfl, hreply⟩ := Prod.mk.inj hpair
  rw [Returned.answer_inj.mp hreply] at hsuccess
  exact hsuccess

/-- A response is replied to once, whatever it says. -/
theorem FuseOp.finish_response {handles handles' : Handles} {resp : Response}
    {returned : Returned}
    (h : op.finish opts handles (.response resp) = some (.ok (handles', returned))) :
    ∃ reply, returned = .answer resp reply := by
  by_cases hcode : resp.errorCode = 0
  · rw [finish_of_success hcode] at h
    obtain ⟨result, _, hmap⟩ := Option.map_eq_some_iff.mp h
    obtain ⟨⟨_, reply⟩, _, hpair⟩ := map_ok hmap
    exact ⟨reply, (Prod.mk.inj hpair).2.symm⟩
  · rw [finish_of_error hcode] at h
    exact ⟨_, (Prod.mk.inj (Except.ok.inj (Option.some.inj h))).2.symm⟩

theorem ClientState.start_move {t : FuseReq} (hnew : s.op t = none)
    (h : s.start t op = some (s', output)) : ClientMove opts s s' (.start t op) output := by
  obtain ⟨result, hstart, hresult⟩ := Option.map_eq_some_iff.mp h
  cases op with
  | readDir id size off fh uid gid =>
    obtain ⟨cache, hcache, hrun⟩ := Option.map_eq_some_iff.mp hstart
    rcases result with crash | ⟨handles, reply⟩
    · cases hresult
      exact .crashed (by simp) rfl rfl (by simp)
    · obtain ⟨_, _, hrun⟩ := bind_ok hrun
      split_ifs at hrun with hserved
      · cases hrun
        cases hresult
        exact .served hnew rfl hcache rfl
      · cases hrun
        cases hresult
        refine .sent hnew rfl rfl fun _ _ _ _ _ _ heq => ?_
        cases heq
        refine ⟨cache, hcache, ?_⟩
        simpa using hserved
  | lookup | getAttr | mkdir | openDir =>
    cases hstart
    cases hresult
    exact .sent hnew rfl rfl (by simp)

theorem ClientState.complete_move {t : FuseReq} {outcome : RpcOutcome} {ok : Bool}
    (hwaiting : s.op t = some (.waiting op))
    (h : s.complete t opts op outcome ok = some (s', output)) :
    ClientMove opts s s' (.complete t outcome ok) output := by
  obtain ⟨result, hfinish, hresult⟩ := Option.map_eq_some_iff.mp h
  cases outcome with
  | failed =>
    cases hfinish
    cases hresult
    exact .failed hwaiting rfl rfl
  | response resp =>
    rcases result with crash | ⟨handles', returned⟩
    · cases hresult
      exact .crashed (by simp) rfl rfl (by simp)
    · obtain ⟨reply, rfl⟩ := FuseOp.finish_response hfinish
      cases hresult
      exact .answered hwaiting rfl hfinish

theorem clientStep_move (h : clientStep opts s input = some (s', output)) :
    s.crash = none ∧ ClientMove opts s s' input output := by
  -- a client that has crashed takes no step
  unfold clientStep at h
  split_ifs at h with hcrash
  refine ⟨by simpa using hcrash, ?_⟩
  cases input with
  | start t op =>
    dsimp only at h
    split_ifs at h with hnew
    exact ClientState.start_move hnew h
  | complete t outcome ok =>
    dsimp only at h
    split at h
    · exact ClientState.complete_move ‹_› h
    · cases h

/-- A step leaves every other operation as it was. -/
theorem ClientMove.op_other (h : ClientMove opts s s' input output) {t : FuseReq}
    (hne : t ≠ input.fuseReq) : s'.op t = s.op t := by
  cases h with
  | crashed _ hops => rw [hops]
  | sent _ hops | served _ hops | failed _ hops | answered _ hops =>
    rw [hops]
    exact Function.update_of_ne hne _ _

end Moves

/-! ### Replies over a run -/

/-- The replies a step makes on a request. -/
def repliesOf (fuseReq : FuseReq) (output : ClientOutput) : List FuseReply :=
  (output.replies.filter fun reply => reply.1 = fuseReq).map Prod.snd

/-- The replies made on a request. -/
def repliesTo (fuseReq : FuseReq) (trace : ClientTrace) : List FuseReply :=
  trace.flatMap fun e => repliesOf fuseReq e.2

/-- The RPC of an operation has failed. -/
def RpcFailed (fuseReq : FuseReq) (trace : ClientTrace) : Prop :=
  ∃ e ∈ trace, ∃ ok, e.1 = .complete fuseReq .failed ok

instance (fuseReq : FuseReq) (trace : ClientTrace) : Decidable (RpcFailed fuseReq trace) :=
  inferInstanceAs (Decidable (∃ e ∈ trace, ∃ ok, e.1 = .complete fuseReq .failed ok))

/-- No reply has been made on a request, and no RPC of it has failed. -/
def Unreplied (fuseReq : FuseReq) (trace : ClientTrace) : Prop :=
  repliesTo fuseReq trace = [] ∧ ¬ RpcFailed fuseReq trace

/-- What has been replied to an operation, by the phase it is in. -/
def Replied (fuseReq : FuseReq) (trace : ClientTrace) : Option OpPhase → Prop
  | some .completed => ((repliesTo fuseReq trace).length = 1 ∧ ¬ RpcFailed fuseReq trace) ∨
      (repliesTo fuseReq trace = [] ∧ RpcFailed fuseReq trace)
  | _ => Unreplied fuseReq trace

section Run

variable {opts : FuseOptions} {s s' : ClientState} {trace : ClientTrace} {fuseReq : FuseReq}
  {input : ClientInput} {output : ClientOutput}

theorem repliesTo_snoc :
    repliesTo fuseReq (trace ++ [(input, output)]) =
      repliesTo fuseReq trace ++ repliesOf fuseReq output := by
  simp [repliesTo]

theorem rpcFailed_snoc :
    RpcFailed fuseReq (trace ++ [(input, output)]) ↔
      RpcFailed fuseReq trace ∨ ∃ ok, input = .complete fuseReq .failed ok := by
  simp [RpcFailed, or_and_right, exists_or]

/-- A step without a reply to an operation and without a failure of its RPC. -/
theorem Replied.snoc_quiet {phase : Option OpPhase} (h : Replied fuseReq trace phase)
    (hreplies : repliesOf fuseReq output = [])
    (hinput : ∀ ok, input ≠ .complete fuseReq .failed ok) :
    Replied fuseReq (trace ++ [(input, output)]) phase := by
  have hto : repliesTo fuseReq (trace ++ [(input, output)]) = repliesTo fuseReq trace := by
    rw [repliesTo_snoc, hreplies, List.append_nil]
  have hfailed : RpcFailed fuseReq (trace ++ [(input, output)]) ↔ RpcFailed fuseReq trace := by
    rw [rpcFailed_snoc, or_iff_left]
    rintro ⟨ok, heq⟩
    exact hinput ok heq
  rcases phase with _ | _ | _ <;> simpa only [Replied, Unreplied, hto, hfailed] using h

/-- The reply that completes an operation. -/
theorem Unreplied.snoc_reply {reply : FuseReply} (h : Unreplied fuseReq trace)
    (hreplies : output.replies = [(fuseReq, reply)])
    (hinput : ∀ ok, input ≠ .complete fuseReq .failed ok) :
    Replied fuseReq (trace ++ [(input, output)]) (some .completed) := by
  refine .inl ⟨?_, ?_⟩
  · simp [repliesTo_snoc, h.1, repliesOf, hreplies]
  · rw [rpcFailed_snoc]
    rintro (hfailed | ⟨ok, heq⟩)
    · exact h.2 hfailed
    · exact hinput ok heq

/-- The failure that completes an operation. -/
theorem Unreplied.snoc_failed {ok : Bool} (h : Unreplied fuseReq trace)
    (hreplies : output.replies = []) :
    Replied fuseReq (trace ++ [(.complete fuseReq .failed ok, output)]) (some .completed) := by
  refine .inr ⟨?_, rpcFailed_snoc.mpr (.inr ⟨ok, rfl⟩)⟩
  simp [repliesTo_snoc, h.1, repliesOf, hreplies]

/-- A step replies to the operation it is about, if to any. -/
theorem ClientMove.repliesOf_other [Libfuse] (h : ClientMove opts s s' input output)
    (hne : fuseReq ≠ input.fuseReq) : repliesOf fuseReq output = [] := by
  cases h with
  | crashed | sent | failed => rfl
  | served | answered => simpa [repliesOf, ClientInput.fuseReq] using hne.symm

/-- A step keeps the account of the operation it is about. -/
theorem Replied.step_self [Libfuse] (h : Replied input.fuseReq trace (s.op input.fuseReq))
    (hmove : ClientMove opts s s' input output) :
    Replied input.fuseReq (trace ++ [(input, output)]) (s'.op input.fuseReq) := by
  cases hmove with
  | crashed _ hops _ hinput =>
    rw [hops]
    exact h.snoc_quiet rfl (hinput _)
  | @sent fuseReq op hnew hops =>
    simp only [ClientInput.fuseReq, hops, Function.update_self, hnew] at h ⊢
    -- what is waiting is accounted for like what has not been started
    have hwaiting : Replied fuseReq trace (some (.waiting op)) := h
    exact hwaiting.snoc_quiet rfl (fun ok heq => by cases heq)
  | served hnew hops =>
    simp only [ClientInput.fuseReq, hops, Function.update_self, hnew] at h ⊢
    exact Unreplied.snoc_reply h rfl (fun ok heq => by cases heq)
  | failed hwaiting hops =>
    simp only [ClientInput.fuseReq, hops, Function.update_self, hwaiting] at h ⊢
    exact Unreplied.snoc_failed h rfl
  | answered hwaiting hops =>
    simp only [ClientInput.fuseReq, hops, Function.update_self, hwaiting] at h ⊢
    exact Unreplied.snoc_reply h rfl (fun ok heq => by cases heq)

/-- The account is right for every operation after every run. -/
theorem replied_run [Libfuse] (h : Run (clientStep opts) ClientState.init trace s) :
    Replied fuseReq trace (s.op fuseReq) := by
  induction h with
  | nil => exact ⟨rfl, by simp [RpcFailed]⟩
  | @snoc trace s s' input output _ hs ih =>
    obtain ⟨_, hmove⟩ := clientStep_move hs
    by_cases hfr : fuseReq = input.fuseReq
    · subst hfr
      exact ih.step_self hmove
    · -- the step is about another operation
      rw [hmove.op_other hfr]
      refine ih.snoc_quiet (hmove.repliesOf_other hfr) ?_
      rintro ok rfl
      exact hfr rfl

end Run

/-- In every run, an operation that is completed has been replied to at most once, and
exactly once unless its RPC failed. -/
theorem replied_once_iff [Libfuse] {opts : FuseOptions} {trace : ClientTrace} {s : ClientState}
    (h : Run (clientStep opts) ClientState.init trace s) {fuseReq : FuseReq}
    (hdone : s.op fuseReq = some .completed) :
    (repliesTo fuseReq trace).length ≤ 1 ∧
      ((repliesTo fuseReq trace).length = 1 ↔ ¬ RpcFailed fuseReq trace) := by
  have hreplied : Replied fuseReq trace (s.op fuseReq) := replied_run h
  rw [hdone] at hreplied
  rcases hreplied with ⟨hone, hnot⟩ | ⟨hnone, hfailed⟩
  · exact ⟨hone.le, iff_of_true hone hnot⟩
  · rw [hnone]
    exact ⟨Nat.zero_le 1, iff_of_false Nat.zero_ne_one (not_not.mpr hfailed)⟩

/-- A `mkdir` that is refused while a directory is opened, and two calls of `readdir`: one
served by its handle, one by the namenode. -/
def overlappingOps : List ClientInput :=
  [.start 0 (.openDir 1 0 0), .start 1 (.mkdir 1 (ascii "a") 0x1ED 0 0),
   .complete 1 (.response (.mkdirs { errorCode := StatusCode.permissionError.toInt32 })) true,
   .complete 0 (.response (.listDir { hasMore := true })) true,
   .start 2 (.readDir 1 4096 0 1 0 0), .start 3 (.readDir 1 4096 2 1 0 0),
   .complete 3 (.response (.listDir {})) true]

section Sample

open scoped Sample

def overlappingOpsTrace : ClientTrace :=
  ((replay (clientStep {}) ClientState.init overlappingOps).map Prod.fst).getD []

theorem replied_once_overlappingOps :
    ∃ s, Run (clientStep {}) ClientState.init overlappingOpsTrace s ∧
      ∀ fuseReq < 4, s.op fuseReq = some .completed ∧
        (repliesTo fuseReq overlappingOpsTrace).length = 1 := by
  obtain ⟨s, hrun, hdone⟩ : ∃ s, Run (clientStep {}) ClientState.init overlappingOpsTrace s ∧
      (List.range 4).map s.op = List.replicate 4 (some .completed) :=
    exists_run_of_replay_eq overlappingOps _ rfl
  refine ⟨s, hrun, fun fuseReq hlt => ?_⟩
  have hcompleted : s.op fuseReq = some .completed :=
    List.eq_of_mem_replicate (hdone ▸ List.mem_map_of_mem (List.mem_range.mpr hlt))
  refine ⟨hcompleted, (replied_once_iff hrun hcompleted).2.mpr ?_⟩
  have hnone : ∀ fuseReq < 4, ¬ RpcFailed fuseReq overlappingOpsTrace := by decide
  exact hnone fuseReq hlt

/-- A `lookup` whose RPC fails. -/
def failedLookup : List ClientInput :=
  [.start 0 (.lookup 1 (ascii "a")), .complete 0 .failed true]

def failedLookupTrace : ClientTrace :=
  ((replay (clientStep {}) ClientState.init failedLookup).map Prod.fst).getD []

/-- It is completed, and nothing has been replied. -/
theorem not_replied_failedLookup :
    ∃ s, Run (clientStep {}) ClientState.init failedLookupTrace s ∧
      (s.op 0, repliesTo 0 failedLookupTrace) = (some .completed, []) :=
  exists_run_of_replay_eq failedLookup _ rfl

end Sample

end RocketFS
