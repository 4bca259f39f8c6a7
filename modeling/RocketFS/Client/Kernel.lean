import RocketFS.Client.Handles

/-!
# The client under the kernel

The kernel opens directories, reads on where it has stopped, one `readdir` at a time on a
handle, and releases a handle when no `readdir` on it is left. The client keeps two kinds
of objects for it: the cache of a handle, which `releasedir` deletes, and an object for each
operation, which deletes itself. An `opendir` also keeps a pointer to the `fuse_file_info` of
its callback, which is not the client's. The RPCs of different operations complete in any order
and with any outcome.

Under such a kernel no `CHECK` of the client fails and no memory is used that is gone, if the
RPC of `Init` succeeds and the `fuse_file_info` of an `opendir` is there until its response
arrives (`client_safe`). libfuse promises it only for the callback, which does not wait for
the response. The operation objects are not all deleted: `Finish` returns without a `delete`
when the RPC has failed or the response carries an error (`object_live_iff`).

## Main definitions

* `KernelState` — what the kernel remembers
* `fuseStep` — the client from `Init` on, with its objects
* `wellBehaved` — what the kernel does, and what is assumed of libfuse and of `Init`

## Main results

* `client_safe` — no failed `CHECK` and no use of memory that is gone
* `object_live_iff` — the operations whose objects are there
-/

namespace RocketFS

/-! ### The kernel -/

/-- The offset at which each open handle is read on, the handle a `readdir` that has not been
replied to reads, and whether there is one on a handle. -/
structure KernelState where
  position : ℕ → Option ℕ
  reading : FuseReq → Option ℕ
  busy : ℕ → Bool

namespace KernelState

/-- The kernel makes a request. -/
def sends (k : KernelState) : ClientInput → KernelState
  | .start t (.readDir _ _ _ fh _ _) =>
    { k with
      reading := Function.update k.reading t (some fh)
      busy := Function.update k.busy fh true }
  | _ => k

/-- A new handle is read from the beginning. -/
def opens (k : KernelState) : FuseReply → KernelState
  | .opened fh => { k with position := Function.update k.position fh (some 0) }
  | _ => k

/-- The offset after a reply. -/
def offsetAfter (off : ℕ) : FuseReply → ℕ
  | .buf dirents => lastOffset off (.buf dirents)
  | _ => off

/-- The kernel gets a reply. -/
def receives (k : KernelState) (r : FuseReq × FuseReply) : KernelState :=
  let k := k.opens r.2
  match k.reading r.1 with
  | none => k
  | some fh =>
    { position := Function.update k.position fh ((k.position fh).map fun off => offsetAfter off r.2)
      reading := Function.update k.reading r.1 none
      busy := Function.update k.busy fh false }

/-- The kernel closes a handle. -/
def closes (k : KernelState) (fh : ℕ) : KernelState :=
  { k with position := Function.update k.position fh none }

end KernelState

/-! ### The objects of the client -/

/-- The client, the inode `Init` was given, the operation objects that exist, the requests
whose `fuse_file_info` is there, the caches that have been deleted, and whether something was
used that was not there; and the kernel. -/
structure FuseState where
  client : ClientState
  mountpointInodeId : Option UInt64
  live : FuseReq → Bool
  info : FuseReq → Bool
  freed : ℕ → Bool
  dangling : Bool
  kernel : KernelState

def FuseState.init : FuseState where
  client := ClientState.init
  mountpointInodeId := none
  live _ := false
  info _ := false
  freed _ := false
  dangling := false
  kernel := ⟨fun _ => none, fun _ => none, fun _ => false⟩

inductive FuseInput
  /-- `FuseOpsProxy::Init`, with the outcome of its RPC. -/
  | init (outcome : RpcOutcome)
  | client (input : ClientInput)
  /-- The `fuse_file_info` a request was made with ceases to exist. -/
  | infoGone (t : FuseReq)
  /-- `releasedir`. -/
  | releaseDir (t : FuseReq) (fh : ℕ)

/-- Whether a step of the client uses what is not there. A `readdir` checks the offset of its
cache in its constructor, and `OnSuccess` fills the cache; the `OnSuccess` of an `opendir`
writes to the `fuse_file_info`; and what completes is an operation object. -/
def usesGone (s : FuseState) : ClientInput → Bool
  | .start _ (.readDir _ _ _ fh _ _) => s.freed fh
  | .start _ _ => false
  | .complete t .failed _ => !s.live t
  | .complete t (.response resp) _ =>
    !s.live t || resp.errorCode = 0 &&
      match s.client.op t with
      | some (.waiting (.readDir _ _ _ fh _ _)) => s.freed fh
      | some (.waiting (.openDir _ _ _)) => !s.info t
      | _ => false

/-- The operation objects after a step of the client. A constructor that throws leaves none. -/
def liveAfter (live : FuseReq → Bool) (client : ClientState) (output : ClientOutput) :
    ClientInput → FuseReq → Bool
  | .start t _ => Function.update live t (client.crash.isNone && !output.deleted)
  | .complete t _ _ => Function.update live t (live t && !output.deleted)

/-- The requests with a `fuse_file_info` after a step of the client. -/
def infoAfter (info : FuseReq → Bool) : ClientInput → FuseReq → Bool
  | .start t _ => Function.update info t true
  | .complete _ _ _ => info

/-- A step leaves the objects of other operations as they were. -/
theorem liveAfter_other (live : FuseReq → Bool) (client : ClientState) (output : ClientOutput)
    {input : ClientInput} {t : FuseReq} (ht : t ≠ input.fuseReq) :
    liveAfter live client output input t = live t := by
  cases input with
  | start | complete => exact Function.update_of_ne ht _ _

theorem infoAfter_other (info : FuseReq → Bool) {input : ClientInput} {t : FuseReq}
    (ht : t ≠ input.fuseReq) : infoAfter info input t = info t := by
  cases input with
  | start => exact Function.update_of_ne ht _ _
  | complete => rfl

namespace FuseState

/-- A step of the client, and the kernel with its replies. -/
def afterClient (s : FuseState) (input : ClientInput) (client : ClientState)
    (output : ClientOutput) : FuseState :=
  { s with
    client := client
    live := liveAfter s.live client output input
    info := infoAfter s.info input
    dangling := s.dangling || usesGone s input
    kernel := output.replies.foldl KernelState.receives (s.kernel.sends input) }

@[simp] theorem client_afterClient (s : FuseState) (input : ClientInput) (client : ClientState)
    (output : ClientOutput) : (s.afterClient input client output).client = client := rfl

@[simp] theorem live_afterClient (s : FuseState) (input : ClientInput) (client : ClientState)
    (output : ClientOutput) :
    (s.afterClient input client output).live = liveAfter s.live client output input := rfl

/-- `FuseRelDirOp` deletes the cache and itself, and replies at once. -/
def afterRelease (s : FuseState) (t : FuseReq) (fh : ℕ) : FuseState :=
  { s with
    client := { s.client with op := Function.update s.client.op t (some .completed) }
    freed := Function.update s.freed fh true
    dangling := s.dangling || s.freed fh
    kernel := s.kernel.closes fh }

@[simp] theorem op_afterRelease (s : FuseState) (t : FuseReq) (fh : ℕ) :
    (s.afterRelease t fh).client.op = Function.update s.client.op t (some .completed) := rfl

end FuseState

/-- A step, with the replies the kernel gets. Requests come behind `Init`. -/
def fuseStep [Libfuse] (opts : FuseOptions) (s : FuseState) :
    FuseInput → Option (FuseState × List (FuseReq × FuseReply))
  | .init outcome =>
    if s.client.crash.isNone && s.mountpointInodeId.isNone then
      match outcome with
      | .failed =>
        some ({ s with client := { s.client with crash := some (.check "status.ok()") } }, [])
      | .response (.getInode resp) =>
        some ({ s with mountpointInodeId := some resp.id.toUInt64 }, [])
      | .response _ => none
    else none
  | .client input =>
    if s.mountpointInodeId.isSome then
      (clientStep opts s.client input).map fun (client, output) =>
        (s.afterClient input client output, output.replies)
    else none
  | .infoGone t =>
    if s.info t then some ({ s with info := Function.update s.info t false }, []) else none
  | .releaseDir t fh =>
    if s.client.crash.isNone && s.client.op t = none && (s.client.handles.cache fh).isSome then
      some (s.afterRelease t fh, [(t, .err 0)])
    else none

/-- Everything a step can do. -/
inductive FuseMove [Libfuse] (opts : FuseOptions) (s : FuseState) :
    FuseInput → FuseState → List (FuseReq × FuseReply) → Prop
  | initFailed :
      FuseMove opts s (.init .failed)
        { s with client := { s.client with crash := some (.check "status.ok()") } } []
  | mounted (resp : GetInodeResponse) :
      FuseMove opts s (.init (.response (.getInode resp)))
        { s with mountpointInodeId := some resp.id.toUInt64 } []
  | client {input : ClientInput} {client : ClientState} {output : ClientOutput}
      (hclient : clientStep opts s.client input = some (client, output)) :
      FuseMove opts s (.client input) (s.afterClient input client output) output.replies
  | infoGone (t : FuseReq) :
      FuseMove opts s (.infoGone t) { s with info := Function.update s.info t false } []
  | released {t : FuseReq} {fh : ℕ} (hnew : s.client.op t = none) :
      FuseMove opts s (.releaseDir t fh) (s.afterRelease t fh) [(t, .err 0)]

theorem fuseStep_move [Libfuse] {opts : FuseOptions} {s s' : FuseState} {input : FuseInput}
    {replies : List (FuseReq × FuseReply)} (h : fuseStep opts s input = some (s', replies)) :
    FuseMove opts s input s' replies := by
  cases input with
  | init outcome =>
    simp only [fuseStep] at h
    split_ifs at h
    split at h
    · cases h
      exact .initFailed
    · cases h
      exact .mounted _
    · cases h
  | client input =>
    simp only [fuseStep] at h
    split_ifs at h
    obtain ⟨⟨client, output⟩, hclient, hpair⟩ := Option.map_eq_some_iff.mp h
    cases hpair
    exact .client hclient
  | infoGone t =>
    simp only [fuseStep] at h
    split_ifs at h
    cases h
    exact .infoGone t
  | releaseDir t fh =>
    simp only [fuseStep, Bool.and_eq_true, decide_eq_true_eq] at h
    split_ifs at h with hnew
    cases h
    exact .released hnew.1.2

/-- An operation that has yet to write to its `fuse_file_info`. -/
def FuseOp.opensDir : FuseOp → Bool
  | .openDir _ _ _ => true
  | _ => false

/-- What the kernel does; that the RPC of `Init` succeeds; that the `fuse_file_info` of an
`opendir` outlives its RPC; and that the queue hands out what has succeeded. -/
def wellBehaved (s : FuseState) : FuseInput → Bool
  | .init outcome => outcome ≠ .failed
  | .client (.start _ (.readDir _ _ off fh _ _)) =>
    s.kernel.position fh = some off && !s.kernel.busy fh
  | .client (.start _ _) => true
  | .client (.complete _ _ ok) => ok
  | .infoGone t =>
    match s.client.op t with
    | some (.waiting op) => !op.opensDir
    | _ => true
  | .releaseDir _ fh => (s.kernel.position fh).isSome && !s.kernel.busy fh

/-! ### Where the client crashes -/

section Crash

variable [Libfuse] {opts : FuseOptions} {s s' : ClientState} {output : ClientOutput}
  {t : FuseReq} {op : FuseOp}

/-- A `readdir` that goes on where the cache ends is started without a failed check. -/
theorem crash_of_start (h : clientStep opts s (.start t op) = some (s', output))
    (hcrash : s.crash = none)
    (hop : ∀ id size off fh uid gid, op = .readDir id size off fh uid gid →
      ∃ cache, s.handles.cache fh = some cache ∧ cache.endOff = off) : s'.crash = none := by
  simp only [clientStep, hcrash, Option.isSome_none, Bool.false_eq_true, if_false] at h
  split_ifs at h
  obtain ⟨result, hstart, hresult⟩ := Option.map_eq_some_iff.mp h
  rcases result with crash | ⟨handles, _ | reply⟩
  · cases op with
    | readDir id size off fh uid gid =>
      obtain ⟨cache, hcache, rfl⟩ := hop id size off fh uid gid rfl
      simp only [FuseOp.start, hcache, Option.map_some, decide_true, check_true, ok_bind] at hstart
      split_ifs at hstart <;> cases hstart
    | lookup | getAttr | mkdir | openDir => cases hstart
  · cases hresult
    exact hcrash
  · cases hresult
    exact hcrash

/-- `Finish` fails a check only in a `readdir` that finds something in its cache. -/
theorem FuseOp.finish_error {handles : Handles} {outcome : RpcOutcome} {crash : Crash}
    (h : op.finish opts handles outcome = some (.error crash)) :
    ∃ id size off fh uid gid cache, op = .readDir id size off fh uid gid ∧
      handles.cache fh = some cache ∧
      ¬ (cache.entries = [] ∧ cache.endOff = cache.startOff) := by
  cases outcome with
  | failed => cases h
  | response resp =>
    rw [finish] at h
    split_ifs at h with hcode
    · cases h
    · obtain ⟨result, hsuccess, hresult⟩ := Option.map_eq_some_iff.mp h
      rcases result with crash' | _
      · unfold onSuccess at hsuccess
        split at hsuccess
        case h_5 id size off fh uid gid resp =>
          obtain ⟨cache, hcache, hmap⟩ := Option.map_eq_some_iff.mp hsuccess
          refine ⟨id, size, off, fh, uid, gid, cache, rfl, hcache, ?_⟩
          rintro ⟨hentries, hoff⟩
          have hzero : resp.errorCode = 0 := not_not.mp hcode
          simp only [FuseReadDirOp.onSuccess, hzero, hentries, hoff, List.isEmpty_nil, decide_true,
            check_true, ok_bind] at hmap
          cases hmap
        all_goals cases hsuccess
      · cases hresult

theorem waiting_of_complete {outcome : RpcOutcome} {ok : Bool}
    (h : clientStep opts s (.complete t outcome ok) = some (s', output)) :
    ∃ op, s.op t = some (.waiting op) := by
  unfold clientStep at h
  split_ifs at h
  dsimp only at h
  split at h
  · exact ⟨_, ‹_›⟩
  · cases h

/-- A `readdir` whose cache is empty is finished without a failed check. -/
theorem crash_of_complete {outcome : RpcOutcome}
    (h : clientStep opts s (.complete t outcome true) = some (s', output))
    (hop : ∀ id size off fh uid gid, s.op t = some (.waiting (.readDir id size off fh uid gid)) →
      ∃ cache, s.handles.cache fh = some cache ∧ cache.entries = [] ∧
        cache.endOff = cache.startOff) : s'.crash = none := by
  unfold clientStep at h
  split_ifs at h
  dsimp only at h
  split at h
  · rename_i op hwaiting
    obtain ⟨result, hfinish, hresult⟩ := Option.map_eq_some_iff.mp h
    rcases result with crash | ⟨handles', replies⟩
    · obtain ⟨id, size, off, fh, uid, gid, cache, rfl, hcache, hnot⟩ := FuseOp.finish_error hfinish
      obtain ⟨cache', hcache', hempty⟩ := hop id size off fh uid gid hwaiting
      obtain rfl := Option.some.inj (hcache.symm.trans hcache')
      exact absurd hempty hnot
    · cases hresult
      rfl
  · cases h

end Crash

/-! ### The invariant -/

/-- The handle an operation reads. -/
def FuseOp.handle : FuseOp → Option ℕ
  | .readDir _ _ _ fh _ _ => some fh
  | _ => none

/-- An open handle is read on where its cache ends. -/
def OpenAt (s : FuseState) (fh off : ℕ) : Prop :=
  s.freed fh = false ∧ fh < s.client.handles.nextFh ∧
    ∃ cache, s.client.handles.cache fh = some cache ∧ cache.InBounds ∧ cache.endOff = off

/-- The cache of the handle is empty and the handle is open. -/
def Drained (s : FuseState) (fh : ℕ) : Prop :=
  s.kernel.position fh ≠ none ∧ s.kernel.busy fh = true ∧
    ∃ cache, s.client.handles.cache fh = some cache ∧ cache.entries = []

/-- What holds between the steps of a client under a kernel that behaves well. -/
structure FuseInv (s : FuseState) : Prop where
  crash : s.client.crash = none
  openAt : ∀ fh off, s.kernel.position fh = some off → OpenAt s fh off
  reading : ∀ t fh, s.kernel.reading t = some fh → Drained s fh
  unique : ∀ t u fh, s.kernel.reading t = some fh → s.kernel.reading u = some fh → t = u
  waiting : ∀ t op, s.client.op t = some (.waiting op) → s.kernel.reading t = op.handle
  new : ∀ t, s.client.op t = none → s.kernel.reading t = none
  unopened : ∀ fh, s.client.handles.nextFh ≤ fh → s.freed fh = false

/-- What the operations that wait for their RPC will use is there. -/
structure ObjectsInv (s : FuseState) : Prop where
  live : ∀ t op, s.client.op t = some (.waiting op) → s.live t = true
  info : ∀ t op, s.client.op t = some (.waiting op) → op.opensDir = true → s.info t = true

theorem fuseInv_init : FuseInv FuseState.init where
  crash := rfl
  openAt fh off h := by cases h
  reading t fh h := by cases h
  unique t u fh h := by cases h
  waiting t op h := by cases h
  new t _ := rfl
  unopened fh _ := rfl

theorem objectsInv_init : ObjectsInv FuseState.init where
  live t op h := by cases h
  info t op h := by cases h

section Step

variable {opts : FuseOptions} {s s' : FuseState} {input : FuseInput}
  {replies : List (FuseReq × FuseReply)}

/-- A step of a client that behaves well neither crashes nor uses what is not there. -/
theorem FuseInv.no_crash [Libfuse] (h : FuseInv s) (hobjects : ObjectsInv s)
    {clientInput : ClientInput} {client : ClientState} {output : ClientOutput}
    (hgood : wellBehaved s (.client clientInput))
    (hs : clientStep opts s.client clientInput = some (client, output)) :
    client.crash = none ∧ usesGone s clientInput = false := by
  cases clientInput with
  | start t op =>
    cases op with
    | readDir id size off fh uid gid =>
      simp only [wellBehaved, Bool.and_eq_true, decide_eq_true_eq] at hgood
      obtain ⟨hfreed, _, cache, hcache, _, hend⟩ := h.openAt fh off hgood.1
      refine ⟨crash_of_start hs h.crash ?_, hfreed⟩
      intro id' size' off' fh' uid' gid' heq
      cases heq
      exact ⟨cache, hcache, hend⟩
    | lookup | getAttr | mkdir | openDir => exact ⟨crash_of_start hs h.crash nofun, rfl⟩
  | complete t outcome ok =>
    obtain rfl : ok = true := hgood
    -- a `readdir` that waits has used up its cache, which ends where it starts
    have hdrained : ∀ id size off fh uid gid,
        s.client.op t = some (.waiting (.readDir id size off fh uid gid)) →
        s.freed fh = false ∧ ∃ cache, s.client.handles.cache fh = some cache ∧
          cache.entries = [] ∧ cache.endOff = cache.startOff := by
      intro id size off fh uid gid hwaiting
      obtain ⟨hopen, _, cache, hcache, hempty⟩ :=
        h.reading t fh (h.waiting t _ hwaiting)
      obtain ⟨pos, hpos⟩ := Option.ne_none_iff_exists'.mp hopen
      obtain ⟨hfreed, _, cache', hcache', hbounds, _⟩ := h.openAt fh pos hpos
      obtain rfl := Option.some.inj (hcache.symm.trans hcache')
      exact ⟨hfreed, cache, hcache, hempty, (hbounds.startOff_eq hempty).symm⟩
    obtain ⟨op, hwaiting⟩ := waiting_of_complete hs
    refine ⟨crash_of_complete hs fun id size off fh uid gid hreadDir => ?_, ?_⟩
    · exact (hdrained id size off fh uid gid hreadDir).2
    · -- what it uses: its own object, and behind a success the cache or the `fuse_file_info`
      have hlive := hobjects.live t op hwaiting
      cases outcome with
      | failed => rw [usesGone, hlive, Bool.not_true]
      | response resp =>
        rw [usesGone, hlive, Bool.not_true, Bool.false_or, hwaiting]
        cases op with
        | readDir id size off fh uid gid =>
          dsimp only
          rw [(hdrained id size off fh uid gid hwaiting).1, Bool.and_false]
        | openDir id uid gid =>
          dsimp only
          rw [hobjects.info t _ hwaiting rfl, Bool.not_true, Bool.and_false]
        | lookup | getAttr | mkdir => exact Bool.and_false _

/-- A step that changes nothing but the phase of an operation. -/
theorem FuseInv.step_quiet (h : FuseInv s) (hcrash : s'.client.crash = none)
    (hfreed : s'.freed = s.freed) (hhandles : s'.client.handles = s.client.handles)
    (hkernel : s'.kernel = s.kernel)
    (hwaiting : ∀ t op, s'.client.op t = some (.waiting op) → s.kernel.reading t = op.handle)
    (hnew : ∀ t, s'.client.op t = none → s.client.op t = none) : FuseInv s' where
  crash := hcrash
  openAt := by
    simp only [OpenAt, hfreed, hhandles, hkernel]
    exact h.openAt
  reading := by
    simp only [Drained, hhandles, hkernel]
    exact h.reading
  unique := hkernel ▸ h.unique
  waiting := hkernel ▸ hwaiting
  new t ht := hkernel ▸ h.new t (hnew t ht)
  unopened := by
    rw [hfreed, hhandles]
    exact h.unopened

/-- A `readdir` that asks the namenode is sent. -/
theorem FuseInv.step_sent (h : FuseInv s) {t : FuseReq} {op : FuseOp} {fh : ℕ}
    {cache : CacheDirEntries} (hcrash : s'.client.crash = none)
    (hfreed : s'.freed = s.freed) (hhandles : s'.client.handles = s.client.handles)
    (hop : op.handle = some fh)
    (hops : s'.client.op = Function.update s.client.op t (some (.waiting op)))
    (hposition : s'.kernel.position = s.kernel.position)
    (hreading : s'.kernel.reading = Function.update s.kernel.reading t (some fh))
    (hbusy : s'.kernel.busy = Function.update s.kernel.busy fh true)
    (hopen : s.kernel.position fh ≠ none) (hidle : s.kernel.busy fh = false)
    (hcache : s.client.handles.cache fh = some cache) (hempty : cache.entries = []) :
    FuseInv s' := by
  -- the handle was idle, so no other `readdir` reads it
  have hnone : ∀ u, s.kernel.reading u ≠ some fh := fun u hu => by
    obtain ⟨_, hbusy, _⟩ := h.reading u fh hu
    rw [hidle] at hbusy
    cases hbusy
  refine ⟨hcrash, ?_, fun u fh' hu => ?_, fun u v fh' hu hv => ?_, fun u op' hu => ?_,
    fun u hu => ?_, ?_⟩
  · simp only [OpenAt, hfreed, hhandles, hposition]
    exact h.openAt
  · simp only [Drained, hhandles, hposition, hbusy]
    rw [hreading] at hu
    rcases update_cases hu with ⟨_, heq⟩ | ⟨_, hold⟩
    · obtain rfl := Option.some.inj heq
      exact ⟨hopen, Function.update_self _ _ _, cache, hcache, hempty⟩
    · obtain ⟨hopen', hbusy', hcache'⟩ := h.reading u fh' hold
      refine ⟨hopen', ?_, hcache'⟩
      rw [Function.update_of_ne]
      · exact hbusy'
      · rintro rfl
        exact hnone u hold
  · rw [hreading] at hu hv
    rcases update_cases hu with ⟨rfl, heq⟩ | ⟨_, hold⟩
    · obtain rfl := Option.some.inj heq
      rcases update_cases hv with ⟨rfl, _⟩ | ⟨_, hold'⟩
      · rfl
      · exact absurd hold' (hnone v)
    · rcases update_cases hv with ⟨rfl, heq⟩ | ⟨_, hold'⟩
      · obtain rfl := Option.some.inj heq
        exact absurd hold (hnone u)
      · exact h.unique u v fh' hold hold'
  · rw [hops] at hu
    rw [hreading]
    rcases update_cases hu with ⟨rfl, heq⟩ | ⟨hne, hold⟩
    · cases heq
      rw [Function.update_self, hop]
    · rw [Function.update_of_ne hne]
      exact h.waiting u op' hold
  · rw [hops] at hu
    rcases update_cases hu with ⟨_, heq⟩ | ⟨hne, hold⟩
    · cases heq
    · rw [hreading, Function.update_of_ne hne]
      exact h.new u hold
  · rw [hfreed, hhandles]
    exact h.unopened

/-- A `readdir` is replied to, and is the only one on its handle. -/
theorem FuseInv.step_replied (h : FuseInv s) {t : FuseReq} {fh : ℕ} {cache : CacheDirEntries}
    (hcrash : s'.client.crash = none)
    (hfreed : s'.freed = s.freed)
    (hops : s'.client.op = Function.update s.client.op t (some .completed))
    (hnext : s'.client.handles.nextFh = s.client.handles.nextFh)
    (hcache : s'.client.handles.cache fh = some cache) (hbounds : cache.InBounds)
    (hcaches : ∀ fh', fh' ≠ fh → s'.client.handles.cache fh' = s.client.handles.cache fh')
    (hposition : s'.kernel.position = Function.update s.kernel.position fh (some cache.endOff))
    (hreading : s'.kernel.reading = Function.update s.kernel.reading t none)
    (hbusy : s'.kernel.busy = Function.update s.kernel.busy fh false)
    (hopen : s.kernel.position fh ≠ none) (hown : ∀ u, s.kernel.reading u = some fh → u = t) :
    FuseInv s' := by
  obtain ⟨hwaiting, hnone⟩ := completed_ops hops
  have hreading' : ∀ u fh', s'.kernel.reading u = some fh' →
      u ≠ t ∧ s.kernel.reading u = some fh' := by
    intro u fh' hu
    rw [hreading] at hu
    by_cases hut : u = t
    · rw [hut, Function.update_self] at hu
      cases hu
    · rw [Function.update_of_ne hut] at hu
      exact ⟨hut, hu⟩
  refine ⟨hcrash, fun fh' off hoff => ?_, fun u fh' hu => ?_, fun u v fh' hu hv => ?_,
    fun u op hu => ?_, fun u hu => ?_, ?_⟩
  · rw [hposition] at hoff
    rw [OpenAt, hfreed, hnext]
    rcases update_cases hoff with ⟨rfl, heq⟩ | ⟨hne, hold⟩
    · obtain rfl := Option.some.inj heq
      obtain ⟨pos, hpos⟩ := Option.ne_none_iff_exists'.mp hopen
      obtain ⟨hnot, hlt, _⟩ := h.openAt fh' pos hpos
      exact ⟨hnot, hlt, cache, hcache, hbounds, rfl⟩
    · rw [hcaches fh' hne]
      exact h.openAt fh' off hold
  · -- whoever still reads, reads another handle
    obtain ⟨hut, hold⟩ := hreading' u fh' hu
    have hne : fh' ≠ fh := by
      rintro rfl
      exact hut (hown u hold)
    rw [Drained, hposition, hbusy, Function.update_of_ne hne, Function.update_of_ne hne,
      hcaches fh' hne]
    exact h.reading u fh' hold
  · exact h.unique u v fh' (hreading' u fh' hu).2 (hreading' v fh' hv).2
  · rw [hreading, Function.update_of_ne]
    · exact h.waiting u op (hwaiting u op hu)
    · rintro rfl
      rw [hops, Function.update_self] at hu
      cases hu
  · obtain ⟨hut, hold⟩ := hnone u hu
    rw [hreading, Function.update_of_ne hut]
    exact h.new u hold
  · rw [hfreed, hnext]
    exact h.unopened

/-- A directory is opened. -/
theorem FuseInv.step_opened (h : FuseInv s) {t : FuseReq} {cache : CacheDirEntries}
    (hcrash : s'.client.crash = none)
    (hfreed : s'.freed = s.freed)
    (hops : s'.client.op = Function.update s.client.op t (some .completed))
    (hhandles : s'.client.handles = ⟨Function.update s.client.handles.cache
      s.client.handles.nextFh (some cache), s.client.handles.nextFh + 1⟩)
    (hbounds : cache.InBounds) (hend : cache.endOff = 0)
    (hkernel : s'.kernel = s.kernel.opens (.opened s.client.handles.nextFh)) : FuseInv s' := by
  obtain ⟨hwaiting, hnone⟩ := completed_ops hops
  have hreading : s'.kernel.reading = s.kernel.reading := by rw [hkernel]; rfl
  -- the new handle is none of those that are open
  have hlt : ∀ fh, s.kernel.position fh ≠ none → fh < s.client.handles.nextFh := fun fh hfh => by
    obtain ⟨off, hoff⟩ := Option.ne_none_iff_exists'.mp hfh
    exact (h.openAt fh off hoff).2.1
  refine ⟨hcrash, fun fh off hoff => ?_, fun u fh hu => ?_, hreading ▸ h.unique,
    fun u op hu => hreading ▸ h.waiting u op (hwaiting u op hu),
    fun u hu => hreading ▸ h.new u (hnone u hu).2, fun fh hfh => ?_⟩
  · rw [hkernel] at hoff
    rw [OpenAt, hfreed, hhandles]
    rcases update_cases hoff with ⟨rfl, heq⟩ | ⟨hne, hold⟩
    · obtain rfl := Option.some.inj heq
      exact ⟨h.unopened _ le_rfl, Nat.lt_succ_self _, cache, Function.update_self _ _ _, hbounds,
        hend⟩
    · obtain ⟨hnot, hless, hcache⟩ := h.openAt fh off hold
      dsimp only
      rw [Function.update_of_ne hne]
      exact ⟨hnot, Nat.lt_succ_of_lt hless, hcache⟩
  · rw [hreading] at hu
    obtain ⟨hopen, hbusy, hcache⟩ := h.reading u fh hu
    have hne : fh ≠ s.client.handles.nextFh := (hlt fh hopen).ne
    rw [Drained, hkernel, hhandles]
    dsimp only [KernelState.opens]
    rw [Function.update_of_ne hne, Function.update_of_ne hne]
    exact ⟨hopen, hbusy, hcache⟩
  · rw [hhandles] at hfh
    rw [hfreed]
    exact h.unopened fh (Nat.le_of_succ_le hfh)

/-- A handle is released on which no `readdir` is left. -/
theorem FuseInv.step_released (h : FuseInv s) {t : FuseReq} {fh : ℕ}
    (hcrash : s'.client.crash = none)
    (hfreed : s'.freed = Function.update s.freed fh true)
    (hops : s'.client.op = Function.update s.client.op t (some .completed))
    (hhandles : s'.client.handles = s.client.handles) (hkernel : s'.kernel = s.kernel.closes fh)
    (hlt : fh < s.client.handles.nextFh) (hidle : s.kernel.busy fh = false) : FuseInv s' := by
  obtain ⟨hwaiting, hnone⟩ := completed_ops hops
  have hreading : s'.kernel.reading = s.kernel.reading := by rw [hkernel]; rfl
  have hposition : s'.kernel.position = Function.update s.kernel.position fh none := by
    rw [hkernel]
    rfl
  have hbusy : s'.kernel.busy = s.kernel.busy := by rw [hkernel]; rfl
  refine ⟨hcrash, fun fh' off hoff => ?_, fun u fh' hu => ?_, hreading ▸ h.unique,
    fun u op hu => hreading ▸ h.waiting u op (hwaiting u op hu),
    fun u hu => hreading ▸ h.new u (hnone u hu).2, fun fh' hfh' => ?_⟩
  · -- a handle that is still open is not the one that was closed
    have hne : fh' ≠ fh := by
      rintro rfl
      rw [hposition, Function.update_self] at hoff
      cases hoff
    rw [hposition, Function.update_of_ne hne] at hoff
    rw [OpenAt, hfreed, hhandles, Function.update_of_ne hne]
    exact h.openAt fh' off hoff
  · rw [hreading] at hu
    have hdrained := h.reading u fh' hu
    -- nor is one that is read, since this one was idle
    have hne : fh' ≠ fh := by
      rintro rfl
      cases hidle.symm.trans hdrained.2.1
    rw [Drained, hposition, hbusy, hhandles, Function.update_of_ne hne]
    exact hdrained
  · rw [hhandles] at hfh'
    have hne : fh' ≠ fh := (hlt.trans_le hfh').ne'
    rw [hfreed, Function.update_of_ne hne]
    exact h.unopened fh' hfh'

/-- The kernel reads on where the cache ends. -/
theorem offsetAfter_populate [Libfuse] {cache : CacheDirEntries} (h : cache.InBounds) (size : ℕ) :
    KernelState.offsetAfter cache.endOff (.buf (cache.populateDirEntriesBuffer size).1) =
      (cache.populateDirEntriesBuffer size).2.endOff ∧
    (cache.populateDirEntriesBuffer size).2.InBounds := by
  obtain ⟨n, hn, hpopulate, _⟩ := h.populate_eq size
  rw [hpopulate]
  refine ⟨?_, h.afterCopying hn⟩
  rw [KernelState.offsetAfter, lastOffset_streamFrom, CacheDirEntries.endOff_afterCopying,
    List.length_map, List.length_take, Nat.min_eq_left hn]

theorem receives_of_none {k : KernelState} {t : FuseReq} {reply : FuseReply}
    (h : k.reading t = none) : k.receives (t, reply) = k.opens reply := by
  have hreading : (k.opens reply).reading t = none := by
    cases reply <;> exact h
  simp only [KernelState.receives, hreading]

/-- The kernel gets the reply to a `readdir` on an open handle. -/
theorem receives_of_some {k : KernelState} {t : FuseReq} {reply : FuseReply} {fh off : ℕ}
    (h : k.reading t = some fh) (hpos : k.position fh = some off)
    (hopened : ∀ fh, reply ≠ .opened fh) :
    k.receives (t, reply) =
      ⟨Function.update k.position fh (some (KernelState.offsetAfter off reply)),
        Function.update k.reading t none, Function.update k.busy fh false⟩ := by
  have hopens : k.opens reply = k := by
    cases reply with
    | opened fh => exact absurd rfl (hopened fh)
    | err | entry | attr | buf => rfl
  simp only [KernelState.receives, hopens, h, hpos, Option.map_some]

/-- The kernel makes a request and gets the reply at once. -/
theorem sends_receives {k : KernelState} {off fh : ℕ} (hpos : k.position fh = some off)
    (t : FuseReq) (id : UInt64) (size : ℕ) (uid gid : UInt32) (dirents : List Dirent) :
    (k.sends (.start t (.readDir id size off fh uid gid))).receives (t, .buf dirents) =
      ⟨Function.update k.position fh (some (KernelState.offsetAfter off (.buf dirents))),
        Function.update k.reading t none, Function.update k.busy fh false⟩ := by
  have hreading : (k.sends (.start t (.readDir id size off fh uid gid))).reading t = some fh :=
    Function.update_self _ _ _
  have hpos' : (k.sends (.start t (.readDir id size off fh uid gid))).position fh = some off := hpos
  have hnot : ∀ fh, FuseReply.buf dirents ≠ .opened fh := nofun
  rw [receives_of_some hreading hpos' hnot]
  simp only [KernelState.sends, Function.update_idem]

/-- A `readdir` on an open handle is replied to out of its cache. -/
theorem FuseInv.step_populated [Libfuse] (h : FuseInv s) {t : FuseReq} {fh size : ℕ}
    {cache : CacheDirEntries} (hcrash : s'.client.crash = none) (hfreed : s'.freed = s.freed)
    (hops : s'.client.op = Function.update s.client.op t (some .completed))
    (hhandles : s'.client.handles =
      s.client.handles.set fh (cache.populateDirEntriesBuffer size).2)
    (hbounds : cache.InBounds)
    (hkernel : s'.kernel =
      ⟨Function.update s.kernel.position fh (some (KernelState.offsetAfter cache.endOff
          (.buf (cache.populateDirEntriesBuffer size).1))),
        Function.update s.kernel.reading t none, Function.update s.kernel.busy fh false⟩)
    (hopen : s.kernel.position fh ≠ none) (hown : ∀ u, s.kernel.reading u = some fh → u = t) :
    FuseInv s' := by
  obtain ⟨hoffset, hbounds'⟩ := offsetAfter_populate hbounds size
  rw [hoffset] at hkernel
  refine h.step_replied hcrash hfreed hops ?_ ?_ hbounds' (fun fh' hne => ?_)
    (congrArg KernelState.position hkernel) (congrArg KernelState.reading hkernel)
    (congrArg KernelState.busy hkernel) hopen hown
  · rw [hhandles]
    rfl
  · rw [hhandles]
    exact Function.update_self _ _ _
  · rw [hhandles]
    exact Function.update_of_ne hne _ _

/-- An operation is sent. Of a `readdir` the kernel remembers the handle. -/
theorem FuseInv.step_start [Libfuse] (h : FuseInv s) {t : FuseReq} {op : FuseOp}
    {client : ClientState} {output : ClientOutput}
    (hgood : wellBehaved s (.client (.start t op))) (hcrash : client.crash = none)
    (hreplies : output.replies = []) (hnew : s.client.op t = none)
    (hops : client.op = Function.update s.client.op t (some (.waiting op)))
    (hhandles : client.handles = s.client.handles)
    (hmore : ∀ id size off fh uid gid, op = .readDir id size off fh uid gid →
      ∃ cache, s.client.handles.cache fh = some cache ∧ cache.entries = []) :
    FuseInv (s.afterClient (.start t op) client output) := by
  have hkernel : (s.afterClient (.start t op) client output).kernel =
      s.kernel.sends (.start t op) := by
    rw [FuseState.afterClient, hreplies]
    rfl
  cases op with
  | readDir id size off fh uid gid =>
    simp only [wellBehaved, Bool.and_eq_true, decide_eq_true_eq, Bool.not_eq_true'] at hgood
    obtain ⟨cache, hcache, hempty⟩ := hmore id size off fh uid gid rfl
    have hopen : s.kernel.position fh ≠ none := by
      rw [hgood.1]
      nofun
    refine h.step_sent hcrash rfl hhandles rfl hops ?_ ?_ ?_ hopen hgood.2 hcache hempty <;>
      rw [hkernel] <;> rfl
  | lookup | getAttr | mkdir | openDir =>
    refine h.step_quiet hcrash rfl hhandles hkernel (fun u op hu => ?_) fun u hu => ?_
    · rw [FuseState.client_afterClient, hops] at hu
      rcases update_cases hu with ⟨rfl, heq⟩ | ⟨_, hold⟩
      · cases heq
        exact h.new _ hnew
      · exact h.waiting u op hold
    · rw [FuseState.client_afterClient, hops] at hu
      rcases update_cases hu with ⟨_, heq⟩ | ⟨_, hold⟩
      · cases heq
      · exact hold

/-- A response is replied to. What becomes of the handles is up to `Finish`. -/
theorem FuseInv.step_answered [Libfuse] (h : FuseInv s) {t : FuseReq} {op : FuseOp} {ok : Bool}
    {resp : Response} {reply : FuseReply} {client : ClientState} {output : ClientOutput}
    (hcrash : client.crash = none) (hreplies : output.replies = [(t, reply)])
    (hwaiting : s.client.op t = some (.waiting op))
    (hops : client.op = Function.update s.client.op t (some .completed))
    (hfinished : Finished s.client.handles op resp client.handles reply) :
    FuseInv (s.afterClient (.complete t (.response resp) ok) client output) := by
  obtain ⟨hothers, hnone⟩ := completed_ops hops
  have hreading := h.waiting t op hwaiting
  have hreceives : (s.afterClient (.complete t (.response resp) ok) client output).kernel =
      s.kernel.receives (t, reply) := by
    rw [FuseState.afterClient, hreplies]
    rfl
  generalize hhandles : client.handles = handles' at hfinished
  cases hfinished with
  | plain hbuf hopened =>
    cases hhandle : op.handle with
    | none =>
      rw [hhandle] at hreading
      have hopens : s.kernel.opens reply = s.kernel := by
        cases reply with
        | opened fh => exact absurd rfl (hopened fh)
        | err | entry | attr | buf => rfl
      exact h.step_quiet hcrash rfl hhandles
        (hreceives.trans ((receives_of_none hreading).trans hopens))
        (fun u op hu => h.waiting u op (hothers u op hu)) fun u hu => (hnone u hu).2
    | some fh =>
      -- an error leaves the cache, and the kernel where it was
      rw [hhandle] at hreading
      obtain ⟨hopen, _, _⟩ := h.reading t fh hreading
      obtain ⟨off, hpos⟩ := Option.ne_none_iff_exists'.mp hopen
      obtain ⟨_, _, cache, hcache, hbounds, rfl⟩ := h.openAt fh off hpos
      have hoffset : KernelState.offsetAfter cache.endOff reply = cache.endOff := by
        cases reply with
        | buf dirents => exact absurd rfl (hbuf dirents)
        | err | entry | attr | opened => rfl
      have hkernel := hreceives.trans (receives_of_some hreading hpos hopened)
      rw [hoffset] at hkernel
      exact h.step_replied hcrash rfl hops (congrArg Handles.nextFh hhandles)
        (hhandles ▸ hcache) hbounds (fun fh' _ => hhandles ▸ rfl)
        (congrArg KernelState.position hkernel) (congrArg KernelState.reading hkernel)
        (congrArg KernelState.busy hkernel) hopen fun u hu => h.unique u t fh hu hreading
  | opened resp =>
    refine h.step_opened hcrash rfl hops hhandles ⟨le_rfl, Nat.zero_le _⟩ rfl ?_
    exact hreceives.trans (receives_of_none hreading)
  | @more id size off fh uid gid cache refilled resp hcache hempty hoff hrefilled =>
    -- the cache is refilled where it ends, which is where the kernel reads on
    have hfh : s.kernel.reading t = some fh := hreading
    obtain ⟨hopen, _, _⟩ := h.reading t fh hfh
    obtain ⟨pos, hpos⟩ := Option.ne_none_iff_exists'.mp hopen
    obtain ⟨_, _, cache', hcache', _, hend⟩ := h.openAt fh pos hpos
    obtain rfl := Option.some.inj (hcache.symm.trans hcache')
    have hbounds : refilled.InBounds := by
      rw [hrefilled]
      exact ⟨hoff ▸ le_rfl, hoff ▸ Nat.le_add_right _ _⟩
    obtain rfl : pos = refilled.endOff := by
      rw [hrefilled, ← hend]
    exact h.step_populated hcrash rfl hops hhandles hbounds
      (hreceives.trans (receives_of_some hfh hpos (by simp))) hopen
      fun u hu => h.unique u t fh hu hfh

theorem FuseInv.step_client [Libfuse] (h : FuseInv s) {clientInput : ClientInput}
    {client : ClientState} {output : ClientOutput} (hgood : wellBehaved s (.client clientInput))
    (hclient : clientStep opts s.client clientInput = some (client, output))
    (hcrash : client.crash = none) : FuseInv (s.afterClient clientInput client output) := by
  obtain ⟨_, hmove⟩ := clientStep_move hclient
  cases hmove with
  | crashed hcrashed => exact absurd hcrash hcrashed
  | @sent t op hnew hops hhandles hmore =>
    refine h.step_start hgood hcrash rfl hnew hops hhandles fun id size off fh uid gid hop => ?_
    obtain ⟨cache, hcache, hempty, _⟩ := hmore id size off fh uid gid hop
    exact ⟨cache, hcache, hempty⟩
  | @served t id size off fh uid gid cache hnew hops hcache hhandles =>
    simp only [wellBehaved, Bool.and_eq_true, decide_eq_true_eq, Bool.not_eq_true'] at hgood
    obtain ⟨_, _, cache', hcache', hbounds, rfl⟩ := h.openAt fh off hgood.1
    obtain rfl := Option.some.inj (hcache.symm.trans hcache')
    -- the handle was idle, so no other `readdir` reads it
    have hown : ∀ u, s.kernel.reading u = some fh → u = t := fun u hu => by
      cases hgood.2.symm.trans (h.reading u fh hu).2.1
    have hopen : s.kernel.position fh ≠ none := by
      rw [hgood.1]
      nofun
    exact h.step_populated hcrash rfl hops hhandles hbounds
      (sends_receives hgood.1 t id size uid gid _) hopen hown
  | @failed t op ok hwaiting hops hhandles =>
    obtain ⟨hothers, hnone⟩ := completed_ops hops
    exact h.step_quiet hcrash rfl hhandles rfl
      (fun u op hu => h.waiting u op (hothers u op hu)) fun u hu => (hnone u hu).2
  | answered hwaiting hops hfinish =>
    exact h.step_answered hcrash rfl hwaiting hops (FuseOp.finish_inv hfinish)

/-- An operation is completed, and nothing is taken from the others. -/
theorem ObjectsInv.completed (h : ObjectsInv s) {t : FuseReq}
    (hops : s'.client.op = Function.update s.client.op t (some .completed))
    (hlive : ∀ u ≠ t, s'.live u = s.live u) (hinfo : ∀ u ≠ t, s'.info u = s.info u) :
    ObjectsInv s' := by
  have hothers : ∀ u op, s'.client.op u = some (.waiting op) →
      u ≠ t ∧ s.client.op u = some (.waiting op) := by
    intro u op hu
    rw [hops] at hu
    rcases update_cases hu with ⟨_, heq⟩ | hold
    · cases heq
    · exact hold
  refine ⟨fun u op hu => ?_, fun u op hu hopens => ?_⟩
  · obtain ⟨hne, hold⟩ := hothers u op hu
    rw [hlive u hne]
    exact h.live u op hold
  · obtain ⟨hne, hold⟩ := hothers u op hu
    rw [hinfo u hne]
    exact h.info u op hold hopens

/-- A step of a well-behaved client keeps what will be used. -/
theorem ObjectsInv.step_client [Libfuse] (h : ObjectsInv s) {clientInput : ClientInput}
    {client : ClientState} {output : ClientOutput}
    (hclient : clientStep opts s.client clientInput = some (client, output))
    (hcrash : client.crash = none) : ObjectsInv (s.afterClient clientInput client output) := by
  have hlive : ∀ u ≠ clientInput.fuseReq,
      (s.afterClient clientInput client output).live u = s.live u :=
    fun u hne => liveAfter_other s.live client output hne
  have hinfo : ∀ u ≠ clientInput.fuseReq,
      (s.afterClient clientInput client output).info u = s.info u :=
    fun u hne => infoAfter_other s.info hne
  obtain ⟨_, hmove⟩ := clientStep_move hclient
  cases hmove with
  | crashed hcrashed => exact absurd hcrash hcrashed
  | @sent t op hnew hops =>
    -- the object has just been made, and the callback has its `fuse_file_info`
    refine ⟨fun u op' hu => ?_, fun u op' hu hopens => ?_⟩
    · rw [FuseState.client_afterClient, hops] at hu
      rcases update_cases hu with ⟨rfl, _⟩ | ⟨hne, hold⟩
      · simp [liveAfter, hcrash]
      · rw [hlive u hne]
        exact h.live u op' hold
    · rw [FuseState.client_afterClient, hops] at hu
      rcases update_cases hu with ⟨rfl, _⟩ | ⟨hne, hold⟩
      · exact Function.update_self _ _ _
      · rw [hinfo u hne]
        exact h.info u op' hold hopens
  | served _ hops | failed _ hops | answered _ hops => exact h.completed hops hlive hinfo

/-- A step of a well-behaved client keeps everything: nothing has failed, and nothing was used
that is gone. -/
theorem FuseInv.step [Libfuse] (h : FuseInv s) (hobjects : ObjectsInv s)
    (hdangling : s.dangling = false) (hgood : wellBehaved s input)
    (hs : fuseStep opts s input = some (s', replies)) :
    FuseInv s' ∧ ObjectsInv s' ∧ s'.dangling = false := by
  cases fuseStep_move hs with
  | initFailed => cases hgood
  | mounted resp => exact ⟨⟨h.crash, h.openAt, h.reading, h.unique, h.waiting, h.new, h.unopened⟩,
      ⟨hobjects.live, hobjects.info⟩, hdangling⟩
  | @client clientInput client output hclient =>
    obtain ⟨hcrash, hgone⟩ := h.no_crash hobjects hgood hclient
    refine ⟨h.step_client hgood hclient hcrash, hobjects.step_client hclient hcrash, ?_⟩
    rw [FuseState.afterClient, hdangling, hgone]
    rfl
  | infoGone t =>
    refine ⟨⟨h.crash, h.openAt, h.reading, h.unique, h.waiting, h.new, h.unopened⟩,
      ⟨hobjects.live, fun u op hu hopens => ?_⟩, hdangling⟩
    -- libfuse does not take the `fuse_file_info` of an `opendir` that waits
    have hne : u ≠ t := by
      rintro rfl
      have hu' : s.client.op u = some (.waiting op) := hu
      rw [wellBehaved, hu'] at hgood
      simp [hopens] at hgood
    dsimp only
    rw [Function.update_of_ne hne]
    exact hobjects.info u op hu hopens
  | @released t fh hnew =>
    simp only [wellBehaved, Bool.and_eq_true, Bool.not_eq_true'] at hgood
    obtain ⟨hopen, hidle⟩ := hgood
    obtain ⟨pos, hpos⟩ := Option.isSome_iff_exists.mp hopen
    obtain ⟨hnot, hlt, _⟩ := h.openAt fh pos hpos
    refine ⟨h.step_released h.crash rfl rfl rfl rfl hlt hidle,
      hobjects.completed rfl (fun _ _ => rfl) fun _ _ => rfl, ?_⟩
    rw [FuseState.afterRelease, hdangling, hnot]
    rfl

end Step

/-- Under a kernel that behaves well no check of the client fails, and no cache, operation
object or `fuse_file_info` is used after it is gone, in whatever order and with whatever outcome
the RPCs complete, if the RPC of `Init` succeeds and the `fuse_file_info` of an `opendir` is
there until its response arrives. -/
theorem client_safe [Libfuse] {opts : FuseOptions} {s : FuseState}
    {trace : List (FuseInput × List (FuseReq × FuseReply))}
    (h : Run (guarded (fuseStep opts) wellBehaved) FuseState.init trace s) :
    s.client.crash = none ∧ s.dangling = false := by
  have hinv : FuseInv s ∧ ObjectsInv s ∧ s.dangling = false := by
    refine h.invariant (P := fun _ s => FuseInv s ∧ ObjectsInv s ∧ s.dangling = false)
      ⟨fuseInv_init, objectsInv_init, rfl⟩ ?_
    rintro trace s i s' o _ ⟨hinv, hobjects, hdangling⟩ hs
    obtain ⟨hgood, hstep⟩ := guarded_eq_some.mp hs
    exact hinv.step hobjects hdangling hgood hstep
  exact ⟨hinv.1.crash, hinv.2.2⟩

section Sample

open scoped Sample

/-- A directory is read to the end of its first page, the request for more comes back with an
error and is made again, and the handle is closed; the RPC of a lookup in between fails. -/
def readAndClose : List FuseInput :=
  let page (names : List String) : RpcOutcome :=
    .response (.listDir { ents := names.map fun name => ⟨7, ascii name, 0x4000⟩, hasMore := true })
  [.init (.response (.getInode {})), .client (.start 0 (.openDir 5 0 0)),
    .client (.start 1 (.lookup 5 (ascii "a"))), .client (.complete 0 (page ["a"]) true),
    .infoGone 0, .client (.start 2 (.readDir 5 4096 0 1 0 0)),
    .client (.start 3 (.readDir 5 4096 3 1 0 0)), .client (.complete 1 .failed true),
    .client (.complete 3 (.response (.listDir { errorCode := 7 })) true),
    .client (.start 4 (.readDir 5 4096 3 1 0 0)), .client (.complete 4 (page ["b"]) true),
    .releaseDir 5 1]

/-- Its trace. -/
def readAndCloseTrace : List (FuseInput × List (FuseReq × FuseReply)) :=
  ((replay (guarded (fuseStep {}) wellBehaved) FuseState.init readAndClose).map Prod.fst).getD []

theorem client_safe_readAndClose :
    ∃ s, Run (guarded (fuseStep {}) wellBehaved) FuseState.init readAndCloseTrace s ∧
      s.client.crash = none ∧ s.dangling = false := by
  obtain ⟨s, hrun⟩ : ∃ s,
      Run (guarded (fuseStep {}) wellBehaved) FuseState.init readAndCloseTrace s :=
    exists_run_of_replay readAndClose rfl
  exact ⟨s, hrun, client_safe hrun⟩

/-- Where the `fuse_file_info` is gone when the response to an `opendir` arrives, the client
writes to it all the same. -/
example : ((replay (fuseStep {}) FuseState.init [.init (.response (.getInode {})),
    .client (.start 0 (.openDir 5 0 0)), .infoGone 0,
    .client (.complete 0 (.response (.listDir {})) true)]).map fun r => r.2.dangling) =
      some true := by decide

end Sample

/-! ### The operation objects -/

/-- The RPC has failed, or the response carries an error. -/
def RpcOutcome.isError : RpcOutcome → Bool
  | .failed => true
  | .response resp => resp.errorCode ≠ 0

/-- An operation was finished without a success. -/
def FinishedBadly (trace : List (FuseInput × List (FuseReq × FuseReply))) (t : FuseReq) : Prop :=
  ∃ outcome ok replies, (.client (.complete t outcome ok), replies) ∈ trace ∧
    outcome.isError = true

/-- The object of an operation is there while the operation waits for its RPC, and stays if that
did not succeed. -/
def ObjectAccount (live finishedBadly : Prop) : Option OpPhase → Prop
  | none => ¬ live ∧ ¬ finishedBadly
  | some (.waiting _) => live ∧ ¬ finishedBadly
  | some .completed => live ↔ finishedBadly

section Objects

variable {opts : FuseOptions} {s s' : FuseState} {input : FuseInput}
  {replies : List (FuseReq × FuseReply)} {trace : List (FuseInput × List (FuseReq × FuseReply))}

theorem finishedBadly_snoc {t : FuseReq} : FinishedBadly (trace ++ [(input, replies)]) t ↔
    FinishedBadly trace t ∨
      ∃ outcome ok, input = .client (.complete t outcome ok) ∧ outcome.isError = true := by
  constructor
  · rintro ⟨outcome, ok, replies', hmem, herror⟩
    rcases List.mem_append.mp hmem with hold | hlast
    · exact .inl ⟨outcome, ok, replies', hold, herror⟩
    · obtain ⟨rfl, _⟩ := Prod.mk.inj (List.mem_singleton.mp hlast)
      exact .inr ⟨outcome, ok, rfl, herror⟩
  · rintro (⟨outcome, ok, replies', hold, herror⟩ | ⟨outcome, ok, rfl, herror⟩)
    · exact ⟨outcome, ok, replies', List.mem_append_left _ hold, herror⟩
    · exact ⟨outcome, ok, replies, List.mem_append_right _ List.mem_cons_self, herror⟩

/-- Only a completion finishes an operation badly. -/
theorem finishedBadly_snoc_of_ne {t : FuseReq}
    (h : ∀ outcome ok, input ≠ .client (.complete t outcome ok)) :
    FinishedBadly (trace ++ [(input, replies)]) t ↔ FinishedBadly trace t := by
  rw [finishedBadly_snoc, or_iff_left]
  rintro ⟨outcome, ok, heq, _⟩
  exact h outcome ok heq

/-- The account of the object a step of the client is about. -/
theorem objectAccount_self [Libfuse] {clientInput : ClientInput} {client : ClientState}
    {output : ClientOutput}
    (h : ObjectAccount (s.live clientInput.fuseReq = true) (FinishedBadly trace clientInput.fuseReq)
      (s.client.op clientInput.fuseReq))
    (hs : clientStep opts s.client clientInput = some (client, output))
    (hcrash : client.crash = none) :
    ObjectAccount (liveAfter s.live client output clientInput clientInput.fuseReq = true)
      (FinishedBadly (trace ++ [(.client clientInput, replies)]) clientInput.fuseReq)
      (client.op clientInput.fuseReq) := by
  obtain ⟨_, hmove⟩ := clientStep_move hs
  cases hmove with
  | crashed hcrashed => exact absurd hcrash hcrashed
  | sent hnew hops =>
    rw [ClientInput.fuseReq, hnew] at h
    rw [ClientInput.fuseReq, hops, Function.update_self, finishedBadly_snoc_of_ne (by simp)]
    exact ⟨by simp [liveAfter, hcrash], h.2⟩
  | served hnew hops =>
    rw [ClientInput.fuseReq, hnew] at h
    rw [ClientInput.fuseReq, hops, Function.update_self, finishedBadly_snoc_of_ne (by simp)]
    exact iff_of_false (by simp [liveAfter]) h.2
  | @failed t op ok hwaiting hops =>
    rw [ClientInput.fuseReq, hwaiting] at h
    rw [ClientInput.fuseReq, hops, Function.update_self, finishedBadly_snoc]
    refine iff_of_true ?_ (.inr ⟨_, _, rfl, rfl⟩)
    rw [liveAfter, Function.update_self, h.1]
    rfl
  | @answered t op ok resp reply hwaiting hops hfinish =>
    rw [ClientInput.fuseReq, hwaiting] at h
    rw [ClientInput.fuseReq, hops, Function.update_self, finishedBadly_snoc, or_iff_right h.2,
      liveAfter, Function.update_self, h.1]
    -- `Finish` deletes the object exactly if the response carries no error
    simp [ObjectAccount, RpcOutcome.isError]

/-- The accounts of all objects are right after a step of the client. -/
theorem objectAccount_client [Libfuse] {clientInput : ClientInput} {client : ClientState}
    {output : ClientOutput}
    (h : ∀ t, ObjectAccount (s.live t = true) (FinishedBadly trace t) (s.client.op t))
    (hs : clientStep opts s.client clientInput = some (client, output))
    (hcrash : client.crash = none) (t : FuseReq) :
    ObjectAccount (liveAfter s.live client output clientInput t = true)
      (FinishedBadly (trace ++ [(.client clientInput, replies)]) t) (client.op t) := by
  by_cases ht : t = clientInput.fuseReq
  · subst ht
    exact objectAccount_self (h _) hs hcrash
  · have hnot : ∀ outcome ok, FuseInput.client clientInput ≠ .client (.complete t outcome ok) := by
      rintro outcome ok heq
      cases heq
      exact ht rfl
    rw [liveAfter_other s.live client output ht, finishedBadly_snoc_of_ne hnot,
      (clientStep_move hs).2.op_other ht]
    exact h t

theorem objectAccount_run [Libfuse] (h : Run (fuseStep opts) FuseState.init trace s)
    (hcrash : s.client.crash = none) (t : FuseReq) :
    ObjectAccount (s.live t = true) (FinishedBadly trace t) (s.client.op t) := by
  induction h generalizing t with
  | nil =>
    refine ⟨nofun, ?_⟩
    rintro ⟨_, _, _, hmem, _⟩
    exact absurd hmem List.not_mem_nil
  | @snoc trace s s' input replies hrun hs ih =>
    cases fuseStep_move hs with
    | initFailed => cases hcrash
    | mounted resp =>
      rw [finishedBadly_snoc_of_ne (by simp)]
      exact ih hcrash t
    | client hclient =>
      exact objectAccount_client (ih (clientStep_move hclient).1) hclient hcrash t
    | infoGone u =>
      rw [finishedBadly_snoc_of_ne (by simp)]
      exact ih hcrash t
    | @released u fh hnew =>
      rw [finishedBadly_snoc_of_ne (by simp)]
      have hbefore := ih hcrash t
      by_cases ht : t = u
      · -- the object of a `releasedir` lives only while it is started
        subst ht
        rw [hnew] at hbefore
        rw [FuseState.op_afterRelease, Function.update_self]
        exact iff_of_false hbefore.1 hbefore.2
      · rw [FuseState.op_afterRelease, Function.update_of_ne ht]
        exact hbefore

/-- The object of an operation is there exactly while the operation waits for its RPC, or for
ever if that has failed or its response carried an error. -/
theorem object_live_iff [Libfuse] (h : Run (fuseStep opts) FuseState.init trace s)
    (hcrash : s.client.crash = none) (t : FuseReq) :
    s.live t = true ↔ (∃ op, s.client.op t = some (.waiting op)) ∨ FinishedBadly trace t := by
  have haccount := objectAccount_run h hcrash t
  cases hop : s.client.op t with
  | none =>
    rw [hop] at haccount
    exact iff_of_false haccount.1 (by simpa using haccount.2)
  | some phase =>
    rw [hop] at haccount
    cases phase with
    | waiting op => exact iff_of_true haccount.1 (.inl ⟨op, rfl⟩)
    | completed => exact haccount.trans (by simp)

section Sample

open scoped Sample

/-- The object of the second `readdir` stays, the one of the third does not. -/
theorem object_live_iff_readAndClose :
    FinishedBadly readAndCloseTrace 3 ∧ ¬ FinishedBadly readAndCloseTrace 4 := by
  obtain ⟨s, hguarded, hs⟩ : ∃ s,
      Run (guarded (fuseStep {}) wellBehaved) FuseState.init readAndCloseTrace s ∧
        (s.client.crash, s.client.op 3, s.live 3, s.live 4) =
          (none, some .completed, true, false) :=
    exists_run_of_replay_eq readAndClose _ rfl
  simp only [Prod.mk.injEq] at hs
  obtain ⟨hcrash, hthird, hleaked, hdeleted⟩ := hs
  have hrun := hguarded.of_guarded
  constructor
  · rcases (object_live_iff hrun hcrash 3).mp hleaked with ⟨op, hwaiting⟩ | hbad
    · cases hthird.symm.trans hwaiting
    · exact hbad
  · intro hbad
    have hlive := (object_live_iff hrun hcrash 4).mpr (.inr hbad)
    rw [hdeleted] at hlive
    cases hlive

end Sample

end Objects

end RocketFS
