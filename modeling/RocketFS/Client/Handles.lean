import RocketFS.Client.Operations

/-!
# Directory streams through the handles of a client

Many directories are read at the same time, each through a handle of its own, and one
handle may be read by several operations that overlap. The calls that find entries in the
cache are served at once, the others when the namenode has answered. Whatever it answers,
and in whatever order the answers come, a reader sees the entries a handle has received in
the order in which they came, each of them once and with consecutive offsets, and an empty
reply tells that all of them have been seen, unless the buffer was too small for an entry.
A name is shown as its C string, that is, up to its first NUL.

That the kernel gets the handle of an `opendir` takes that its `fuse_file_info`, through which
the handle is written when the response arrives, is still there then.

## Main definitions

* `receivedThrough` — the entries the namenode has sent for a handle
* `shownThrough` — the entries the kernel was shown through it

## Main results

* `FuseOp.finish_inv` — what `Finish` does to the handles
* `shownThrough_isPrefix` — what is shown of a handle's entries
-/

namespace RocketFS

/-! ### What is sent and shown -/

/-- The operation a request of the kernel was started with. -/
def startedWith (trace : ClientTrace) (t : FuseReq) : Option FuseOp :=
  trace.findSome? fun e =>
    match e.1 with
    | .start u op => if u = t then some op else none
    | .complete _ _ _ => none

/-- Something that is read off each reply, with its operation and the input at which it was
made. -/
def collect {α : Type} (f : Option FuseOp → ClientInput → FuseReply → List α)
    (trace : ClientTrace) : List α :=
  trace.flatMap fun e => e.2.replies.flatMap fun r => f (startedWith trace r.1) e.1 r.2

/-- The entries a `readdir` on a handle replies with. -/
def replied (fh : ℕ) : Option FuseOp → ClientInput → FuseReply → List Dirent
  | some (.readDir _ _ _ fh' _ _), _, .buf dirents => if fh' = fh then dirents else []
  | _, _, _ => []

/-- The entries a handle is opened on, and those a `readdir` on it gets from the namenode. -/
def received (fh : ℕ) : Option FuseOp → ClientInput → FuseReply → List DEnt
  | _, .complete _ (.response (.listDir resp)) _, .opened fh' =>
    if fh' = fh then (FuseOpenDirOp.onSuccess resp).entries else []
  | some (.readDir _ _ _ fh' _ _), .complete _ (.response (.listDir resp)) _, .buf _ =>
    if fh' = fh then resp.ents else []
  | _, _, _ => []

/-- The entries the kernel was shown through a handle. -/
def shownThrough (trace : ClientTrace) (fh : ℕ) : List Dirent := collect (replied fh) trace

/-- The entries the namenode has sent for a handle. -/
def receivedThrough (trace : ClientTrace) (fh : ℕ) : List DEnt := collect (received fh) trace

/-! ### What a step does -/

/-- What `Finish` does with a response that it replies to. -/
inductive Finished [Libfuse] (handles : Handles) : FuseOp → Response → Handles → FuseReply → Prop
  | plain {op : FuseOp} {resp : Response} {reply : FuseReply}
      (hbuf : ∀ dirents, reply ≠ .buf dirents) (hopened : ∀ fh, reply ≠ .opened fh) :
      Finished handles op resp handles reply
  | opened {id : UInt64} {uid gid : UInt32} (resp : ListDirResponse) :
      Finished handles (.openDir id uid gid) (.listDir resp)
        ⟨Function.update handles.cache handles.nextFh (some (FuseOpenDirOp.onSuccess resp)),
          handles.nextFh + 1⟩ (.opened handles.nextFh)
  | more {id : UInt64} {size off fh : ℕ} {uid gid : UInt32} {cache refilled : CacheDirEntries}
      (resp : ListDirResponse) (hcache : handles.cache fh = some cache)
      (hempty : cache.entries = []) (hoff : cache.endOff = cache.startOff)
      (hrefilled : refilled = { cache with entries := resp.ents, hasMore := resp.hasMore }) :
      Finished handles (.readDir id size off fh uid gid) (.listDir resp)
        (handles.set fh (refilled.populateDirEntriesBuffer size).2)
        (.buf (refilled.populateDirEntriesBuffer size).1)

/-- What is found after an update was put there by it, or was there before. -/
theorem update_cases {ι α : Type} [DecidableEq ι] {f : ι → Option α} {i j : ι} {a : α}
    {o : Option α} (h : Function.update f i (some a) j = o) :
    (j = i ∧ o = some a) ∨ (j ≠ i ∧ f j = o) := by
  by_cases hj : j = i
  · subst hj
    rw [Function.update_self] at h
    exact .inl ⟨rfl, h.symm⟩
  · rw [Function.update_of_ne hj] at h
    exact .inr ⟨hj, h⟩

section Finish

variable [Libfuse] {opts : FuseOptions} {op : FuseOp} {handles handles' : Handles}
  {resp : Response} {reply : FuseReply}

/-- Behind its checks `OnSuccess` refills the cache, and fills the buffer from it. -/
theorem FuseReadDirOp.onSuccess_inv {cache cache' : CacheDirEntries} {page : ListDirResponse}
    {size : ℕ} {reply : ReadDirReply} (h : onSuccess cache page size = .ok (reply, cache')) :
    cache.entries = [] ∧ cache.endOff = cache.startOff ∧
      reply = .buf (CacheDirEntries.populateDirEntriesBuffer
        { cache with entries := page.ents, hasMore := page.hasMore } size).1 ∧
      cache' = (CacheDirEntries.populateDirEntriesBuffer
        { cache with entries := page.ents, hasMore := page.hasMore } size).2 := by
  rw [onSuccess] at h
  obtain ⟨_, _, h⟩ := bind_ok h
  obtain ⟨_, hoff, h⟩ := bind_ok h
  obtain ⟨_, hempty, h⟩ := bind_ok h
  obtain ⟨rfl, rfl⟩ := Prod.mk.inj (Except.ok.inj h)
  exact ⟨List.isEmpty_iff.mp (check_ok hempty), of_decide_eq_true (check_ok hoff), rfl, rfl⟩

theorem FuseOp.onSuccess_inv
    (h : op.onSuccess opts handles resp = some (.ok (handles', reply))) :
    Finished handles op resp handles' reply := by
  unfold onSuccess at h
  split at h
  · cases h
    exact .plain nofun nofun
  · cases h
    exact .plain nofun nofun
  · cases h
    exact .plain nofun nofun
  · cases h
    exact .opened _
  · obtain ⟨cache, hcache, hsome⟩ := Option.map_eq_some_iff.mp h
    obtain ⟨⟨reply₁, cache'⟩, hsuccess, hpair⟩ := map_ok hsome
    obtain ⟨hempty, hoff, rfl, rfl⟩ := FuseReadDirOp.onSuccess_inv hsuccess
    cases hpair
    exact .more _ hcache hempty hoff rfl
  · cases h

theorem FuseOp.finish_inv
    (h : op.finish opts handles (.response resp) = some (.ok (handles', .answer resp reply))) :
    Finished handles op resp handles' reply := by
  by_cases hcode : resp.errorCode = 0
  · exact onSuccess_inv (onSuccess_of_finish hcode h)
  · rw [finish_of_error hcode] at h
    obtain ⟨rfl, hreply⟩ := Prod.mk.inj (Except.ok.inj (Option.some.inj h))
    rw [← Returned.answer_inj.mp hreply]
    exact .plain (by simp) (by simp)

end Finish

/-! ### The operations of a trace -/

/-- What the trace of a run tells of its operations. -/
structure Started (trace : ClientTrace) (s : ClientState) : Prop where
  waiting : ∀ t op, s.op t = some (.waiting op) → startedWith trace t = some op
  new : s.crash = none → ∀ t, s.op t = none → startedWith trace t = none
  replied : ∀ e ∈ trace, ∀ r ∈ e.2.replies, (startedWith trace r.1).isSome

section Started

variable {opts : FuseOptions} {s s' : ClientState} {trace : ClientTrace} {input : ClientInput}
  {output : ClientOutput} {t : FuseReq} {op : FuseOp}

theorem startedWith_snoc_of_some (h : startedWith trace t = some op) :
    startedWith (trace ++ [(input, output)]) t = some op := by
  rw [startedWith, List.findSome?_append]
  exact congrArg (Option.or · _) h

theorem startedWith_snoc_of_none (h : startedWith trace t = none) :
    startedWith (trace ++ [(input, output)]) t =
      match input with
      | .start u op => if u = t then some op else none
      | .complete _ _ _ => none := by
  rw [startedWith, List.findSome?_append]
  exact (congrArg (Option.or · _) h).trans (by cases input <;> simp)

theorem startedWith_snoc_start (h : startedWith trace t = none) :
    startedWith (trace ++ [(.start t op, output)]) t = some op := by
  rw [startedWith_snoc_of_none h]
  exact if_pos rfl

/-- What is read off the replies of a trace with one more step. -/
theorem Started.collect_snoc (h : Started trace s) {α : Type}
    (f : Option FuseOp → ClientInput → FuseReply → List α) :
    collect f (trace ++ [(input, output)]) = collect f trace ++
      output.replies.flatMap fun r =>
        f (startedWith (trace ++ [(input, output)]) r.1) input r.2 := by
  rw [collect, List.flatMap_append, List.flatMap_singleton, collect]
  congr 1
  -- the operations of the earlier replies were started before
  refine List.flatMap_congr fun e he => List.flatMap_congr fun r hr => ?_
  obtain ⟨op, hop⟩ := Option.isSome_iff_exists.mp (h.replied e he r hr)
  rw [hop, startedWith_snoc_of_some hop]

/-- A step that answers only operations that were started. -/
theorem Started.step_of (h : Started trace s)
    (hwaiting : ∀ t op, s'.op t = some (.waiting op) → s.op t = some (.waiting op) ∨
      (input = .start t op ∧ startedWith trace t = none))
    (hnew : s'.crash = none → ∀ t, s'.op t = none →
      startedWith trace t = none ∧ ∀ op, input ≠ .start t op)
    (hreplies : ∀ r ∈ output.replies, (startedWith (trace ++ [(input, output)]) r.1).isSome) :
    Started (trace ++ [(input, output)]) s' where
  waiting t op ht := by
    rcases hwaiting t op ht with hold | ⟨rfl, hnone⟩
    · exact startedWith_snoc_of_some (h.waiting t op hold)
    · exact startedWith_snoc_start hnone
  new hcrash t ht := by
    obtain ⟨hnone, hne⟩ := hnew hcrash t ht
    rw [startedWith_snoc_of_none hnone]
    cases input with
    | complete => rfl
    | start u op =>
      refine if_neg ?_
      rintro rfl
      exact hne op rfl
  replied e he r hr := by
    rcases List.mem_append.mp he with hold | hlast
    · obtain ⟨op, hop⟩ := Option.isSome_iff_exists.mp (h.replied e hold r hr)
      rw [startedWith_snoc_of_some hop]
      rfl
    · rw [List.mem_singleton.mp hlast] at hr
      exact hreplies r hr

/-- An operation is completed, and the others are left as they are. -/
theorem completed_ops (h : s'.op = Function.update s.op t (some .completed)) :
    (∀ u op, s'.op u = some (.waiting op) → s.op u = some (.waiting op)) ∧
      ∀ u, s'.op u = none → u ≠ t ∧ s.op u = none := by
  refine ⟨fun u op hu => ?_, fun u hu => ?_⟩
  · rw [h] at hu
    rcases update_cases hu with ⟨_, heq⟩ | ⟨_, hold⟩
    · cases heq
    · exact hold
  · rw [h] at hu
    rcases update_cases hu with ⟨_, heq⟩ | hold
    · cases heq
    · exact hold

theorem Started.step [Libfuse] (h : Started trace s)
    (hs : clientStep opts s input = some (s', output)) :
    Started (trace ++ [(input, output)]) s' := by
  obtain ⟨hcrash, hmove⟩ := clientStep_move hs
  cases hmove with
  | crashed hcrashed hops =>
    exact h.step_of (fun t op ht => .inl (hops ▸ ht)) (fun hnone => absurd hnone hcrashed) nofun
  | @sent t op hnew hops =>
    refine h.step_of (fun u op' hu => ?_) (fun _ u hu => ?_) nofun
    · rw [hops] at hu
      rcases update_cases hu with ⟨rfl, heq⟩ | ⟨_, hold⟩
      · cases heq
        exact .inr ⟨rfl, h.new hcrash _ hnew⟩
      · exact .inl hold
    · rw [hops] at hu
      rcases update_cases hu with ⟨_, heq⟩ | ⟨hne, hold⟩
      · cases heq
      · refine ⟨h.new hcrash u hold, fun op' heq => ?_⟩
        cases heq
        exact hne rfl
  | @served t id size off fh uid gid cache hnew hops =>
    -- the only operation that is replied to at the step that starts it
    obtain ⟨hwaiting, hnone⟩ := completed_ops hops
    refine h.step_of (fun u op' hu => .inl (hwaiting u op' hu)) (fun _ u hu => ?_) fun r hr => ?_
    · refine ⟨h.new hcrash u (hnone u hu).2, fun op' heq => ?_⟩
      cases heq
      exact (hnone _ hu).1 rfl
    · rw [List.mem_singleton.mp hr, startedWith_snoc_start (h.new hcrash t hnew)]
      rfl
  | failed _ hops =>
    obtain ⟨hwaiting, hnone⟩ := completed_ops hops
    exact h.step_of (fun u op' hu => .inl (hwaiting u op' hu))
      (fun _ u hu => ⟨h.new hcrash u (hnone u hu).2, nofun⟩) nofun
  | @answered t op ok resp reply hop hops =>
    obtain ⟨hwaiting, hnone⟩ := completed_ops hops
    refine h.step_of (fun u op' hu => .inl (hwaiting u op' hu))
      (fun _ u hu => ⟨h.new hcrash u (hnone u hu).2, nofun⟩) fun r hr => ?_
    rw [List.mem_singleton.mp hr, startedWith_snoc_of_some (h.waiting t op hop)]
    rfl

theorem started_init : Started [] ClientState.init where
  waiting t op h := by cases h
  new _ t _ := rfl
  replied e he := absurd he List.not_mem_nil

end Started

/-! ### The cache of a handle -/

/-- The cache holds what has been received and not been shown. -/
structure CacheDirEntries.Holds (cache : CacheDirEntries) (received : List DEnt)
    (shown : List Dirent) : Prop where
  inBounds : cache.InBounds
  split : ∃ done, received = done ++ cache.remaining ∧ shown = streamFrom 0 (done.map cEntry) ∧
    cache.endOff = done.length

namespace CacheDirEntries.Holds

variable {cache : CacheDirEntries} {received : List DEnt} {shown : List Dirent}

theorem opened (resp : ListDirResponse) :
    (FuseOpenDirOp.onSuccess resp).Holds (FuseOpenDirOp.onSuccess resp).entries [] :=
  ⟨⟨le_rfl, Nat.zero_le _⟩, [], rfl, rfl, rfl⟩

/-- An empty cache gets a page. -/
theorem refill (h : cache.Holds received shown) (hempty : cache.entries = [])
    (hoff : cache.endOff = cache.startOff) (ents : List DEnt) (hasMore : Bool) :
    { cache with entries := ents, hasMore := hasMore : CacheDirEntries }.Holds
      (received ++ ents) shown := by
  obtain ⟨done, rfl, hshown, hend⟩ := h.split
  refine ⟨⟨hoff ▸ le_rfl, ?_⟩, done, ?_, hshown, hend⟩
  · dsimp only
    omega
  · simp [remaining, hempty, hoff]

/-- A call shows some of what the cache holds, and nothing only if there is nothing or the
buffer is too small. -/
theorem populate [Libfuse] (h : cache.Holds received shown) (size : ℕ) :
    (cache.populateDirEntriesBuffer size).2.Holds received
        (shown ++ (cache.populateDirEntriesBuffer size).1) ∧
      ((cache.populateDirEntriesBuffer size).1 = [] →
        (∀ e ∈ received, direntSize e.name ≤ size) →
        shown = streamFrom 0 (received.map cEntry)) := by
  obtain ⟨done, hreceived, hshown, hend⟩ := h.split
  obtain ⟨n, hn, hpopulate, hroom⟩ := h.inBounds.populate_eq size
  rw [hpopulate]
  constructor
  · refine ⟨h.inBounds.afterCopying hn, done ++ cache.remaining.take n, ?_, ?_, ?_⟩
    · rw [h.inBounds.remaining_afterCopying, List.append_assoc, List.take_append_drop, hreceived]
    · rw [hshown, hend, List.map_append, streamFrom_append, List.length_map, Nat.zero_add]
    · rw [endOff_afterCopying, hend, List.length_append, List.length_take, Nat.min_eq_left hn]
  · intro hnone hsizes
    -- nothing was copied, so there was nothing left that the buffer had no room for
    have hlength : n = 0 := by
      have hzero := congrArg List.length hnone
      rw [length_streamFrom, List.length_map, List.length_take, Nat.min_eq_left hn] at hzero
      exact hzero
    have hrest : cache.remaining = [] := by
      cases hremaining : cache.remaining with
      | nil => rfl
      | cons e rest =>
        have he : direntSize e.name ≤ size := hsizes e (by simp [hreceived, hremaining])
        have hpos := hroom e (by simp [hremaining]) he
        omega
    rw [hshown, hreceived, hrest, List.append_nil]

theorem isPrefix (h : cache.Holds received shown) :
    shown <+: streamFrom 0 (received.map cEntry) := by
  obtain ⟨done, hreceived, hshown, _⟩ := h.split
  rw [hshown, hreceived, List.map_append, streamFrom_append]
  exact List.prefix_append _ _

end CacheDirEntries.Holds

/-! ### All handles -/

/-- What has gone through a handle: nothing before it is opened. -/
def HandleAccount (nextFh : ℕ) (fh : ℕ) (received : List DEnt) (shown : List Dirent) :
    Option CacheDirEntries → Prop
  | some cache => fh < nextFh ∧ cache.Holds received shown
  | none => received = [] ∧ shown = []

/-- The accounts of all handles are right. -/
structure HandlesInv (trace : ClientTrace) (s : ClientState) : Prop where
  started : Started trace s
  account : ∀ fh, HandleAccount s.handles.nextFh fh (receivedThrough trace fh)
    (shownThrough trace fh) (s.handles.cache fh)

section Handles

variable {opts : FuseOptions} {s s' : ClientState} {trace : ClientTrace} {input : ClientInput}
  {output : ClientOutput} {t : FuseReq} {op : FuseOp} {reply : FuseReply} {fh : ℕ}

/-- Nothing has gone through the handle that is opened next. -/
theorem HandlesInv.nothing_before (h : HandlesInv trace s) :
    receivedThrough trace s.handles.nextFh = [] ∧ shownThrough trace s.handles.nextFh = [] := by
  have haccount := h.account s.handles.nextFh
  cases hcache : s.handles.cache s.handles.nextFh with
  | some cache =>
    rw [hcache] at haccount
    exact absurd haccount.1 (lt_irrefl _)
  | none =>
    rw [hcache] at haccount
    exact haccount

/-- A step without replies adds nothing to a handle. -/
theorem HandlesInv.through_silent (h : HandlesInv trace s) (hreplies : output.replies = [])
    (fh : ℕ) : receivedThrough (trace ++ [(input, output)]) fh = receivedThrough trace fh ∧
      shownThrough (trace ++ [(input, output)]) fh = shownThrough trace fh := by
  rw [receivedThrough, shownThrough, h.started.collect_snoc, h.started.collect_snoc, hreplies,
    List.flatMap_nil, List.flatMap_nil, List.append_nil, List.append_nil]
  exact ⟨rfl, rfl⟩

/-- A step without replies. -/
theorem HandlesInv.step_silent (h : HandlesInv trace s)
    (hstarted : Started (trace ++ [(input, output)]) s') (hreplies : output.replies = [])
    (hhandles : s'.handles = s.handles) : HandlesInv (trace ++ [(input, output)]) s' where
  started := hstarted
  account fh := by
    obtain ⟨hreceived, hshown⟩ := h.through_silent hreplies fh
    rw [hreceived, hshown, hhandles]
    exact h.account fh

/-- What a step with one reply adds to a handle. -/
theorem HandlesInv.through_snoc (h : HandlesInv trace s) (hreplies : output.replies = [(t, reply)])
    (hop : startedWith (trace ++ [(input, output)]) t = some op) (fh : ℕ) :
    receivedThrough (trace ++ [(input, output)]) fh =
        receivedThrough trace fh ++ received fh (some op) input reply ∧
      shownThrough (trace ++ [(input, output)]) fh =
        shownThrough trace fh ++ replied fh (some op) input reply := by
  rw [receivedThrough, shownThrough, h.started.collect_snoc, h.started.collect_snoc, hreplies,
    List.flatMap_singleton, List.flatMap_singleton, hop]
  exact ⟨rfl, rfl⟩

/-- A step with one reply. -/
theorem HandlesInv.step_reply (h : HandlesInv trace s)
    (hstarted : Started (trace ++ [(input, output)]) s') (hreplies : output.replies = [(t, reply)])
    (hop : startedWith (trace ++ [(input, output)]) t = some op)
    (haccount : ∀ fh, HandleAccount s'.handles.nextFh fh
      (receivedThrough trace fh ++ received fh (some op) input reply)
      (shownThrough trace fh ++ replied fh (some op) input reply) (s'.handles.cache fh)) :
    HandlesInv (trace ++ [(input, output)]) s' where
  started := hstarted
  account fh := by
    obtain ⟨hreceived, hshown⟩ := h.through_snoc hreplies hop fh
    rw [hreceived, hshown]
    exact haccount fh

/-- A handle whose cache is changed, and nothing else. -/
theorem HandleAccount.set {handles : Handles} {cache : CacheDirEntries} {fh₀ : ℕ}
    {receivedMore : List DEnt} {shownMore : List Dirent}
    (h : HandleAccount handles.nextFh fh (receivedThrough trace fh) (shownThrough trace fh)
      (handles.cache fh))
    (hset : fh₀ = fh → HandleAccount handles.nextFh fh (receivedThrough trace fh ++ receivedMore)
      (shownThrough trace fh ++ shownMore) (some cache)) :
    HandleAccount handles.nextFh fh
      (receivedThrough trace fh ++ if fh₀ = fh then receivedMore else [])
      (shownThrough trace fh ++ if fh₀ = fh then shownMore else [])
      ((handles.set fh₀ cache).cache fh) := by
  by_cases hfh : fh₀ = fh
  · rw [if_pos hfh, if_pos hfh, Handles.set, hfh]
    dsimp only
    rw [Function.update_self]
    exact hset hfh
  · rw [if_neg hfh, if_neg hfh, List.append_nil, List.append_nil, Handles.set]
    dsimp only
    rw [Function.update_of_ne (Ne.symm hfh)]
    exact h

/-- A reply that is neither a buffer nor a new handle shows nothing. -/
theorem nothing_through (hbuf : ∀ dirents, reply ≠ .buf dirents)
    (hopened : ∀ fh, reply ≠ .opened fh) (fh : ℕ) (op : Option FuseOp) (input : ClientInput) :
    received fh op input reply = [] ∧ replied fh op input reply = [] := by
  cases reply with
  | buf dirents => exact absurd rfl (hbuf dirents)
  | opened fh' => exact absurd rfl (hopened fh')
  | err | entry | attr =>
    constructor
    · unfold received
      split <;> first | rfl | contradiction
    · unfold replied
      split <;> first | rfl | contradiction

theorem HandlesInv.step [Libfuse] (h : HandlesInv trace s)
    (hs : clientStep opts s input = some (s', output)) :
    HandlesInv (trace ++ [(input, output)]) s' := by
  have hstarted := h.started.step hs
  obtain ⟨hcrash, hmove⟩ := clientStep_move hs
  cases hmove with
  | crashed _ _ hhandles => exact h.step_silent hstarted rfl hhandles
  | sent _ _ hhandles => exact h.step_silent hstarted rfl hhandles
  | failed _ _ hhandles => exact h.step_silent hstarted rfl hhandles
  | @served t id size off fh₀ uid gid cache hnew hops hcache hhandles =>
    refine h.step_reply hstarted rfl (startedWith_snoc_start (h.started.new hcrash t hnew))
      fun fh => ?_
    -- the handle receives nothing, and shows what is copied from its cache
    have hset : HandleAccount s.handles.nextFh fh
        (receivedThrough trace fh ++ if fh₀ = fh then [] else [])
        (shownThrough trace fh ++
          if fh₀ = fh then (cache.populateDirEntriesBuffer size).1 else [])
        ((s.handles.set fh₀ (cache.populateDirEntriesBuffer size).2).cache fh) := by
      refine (h.account fh).set ?_
      rintro rfl
      have hbefore := h.account fh₀
      rw [hcache] at hbefore
      rw [List.append_nil]
      exact ⟨hbefore.1, (hbefore.2.populate size).1⟩
    rw [ite_self] at hset
    rw [hhandles]
    exact hset
  | @answered t op ok resp reply hwaiting hops hfinish =>
    refine h.step_reply hstarted rfl (startedWith_snoc_of_some (h.started.waiting t op hwaiting))
      fun fh => ?_
    have hfinished := FuseOp.finish_inv hfinish
    generalize s'.handles = handles' at hfinished
    cases hfinished with
    | plain hbuf hopened =>
      obtain ⟨hreceived, hreplied⟩ := nothing_through hbuf hopened fh (some op)
        (.complete t (.response resp) ok)
      rw [hreceived, hreplied, List.append_nil, List.append_nil]
      exact h.account fh
    | opened resp =>
      -- the new handle is one that nothing has gone through
      have hbefore := h.account fh
      rw [show replied fh _ _ (.opened s.handles.nextFh) = [] from rfl, List.append_nil]
      simp only [received]
      by_cases hfh : s.handles.nextFh = fh
      · subst hfh
        obtain ⟨hreceived, hshown⟩ := h.nothing_before
        rw [Function.update_self, if_pos rfl, hreceived, hshown, List.nil_append]
        exact ⟨Nat.lt_succ_self _, .opened resp⟩
      · rw [Function.update_of_ne (Ne.symm hfh), if_neg hfh, List.append_nil]
        cases hcache : s.handles.cache fh with
        | some cache =>
          rw [hcache] at hbefore
          exact ⟨Nat.lt_succ_of_lt hbefore.1, hbefore.2⟩
        | none =>
          rw [hcache] at hbefore
          exact hbefore
    | @more id size off fh₀ uid gid cache refilled resp hcache hempty hoff hrefilled =>
      -- the handle receives the page, and shows what is copied from it
      refine (h.account fh).set ?_
      rintro rfl
      have hbefore := h.account fh₀
      rw [hcache] at hbefore
      have hholds := hbefore.2.refill hempty hoff resp.ents resp.hasMore
      rw [← hrefilled] at hholds
      exact ⟨hbefore.1, (hholds.populate size).1⟩

theorem handlesInv_run [Libfuse] (h : Run (clientStep opts) ClientState.init trace s) :
    HandlesInv trace s :=
  h.invariant ⟨started_init, fun _ => ⟨rfl, rfl⟩⟩ fun _ _ _ _ _ _ hinv hs => hinv.step hs

/-- An empty reply with room for every entry tells that all of them have been shown. -/
theorem HandlesInv.shown_all [Libfuse] (h : HandlesInv trace s)
    (hs : clientStep opts s input = some (s', output)) {id : UInt64} {size off : ℕ}
    {uid gid : UInt32} (hempty : (t, .buf []) ∈ output.replies)
    (hop : startedWith (trace ++ [(input, output)]) t = some (.readDir id size off fh uid gid))
    (hsizes : ∀ e ∈ receivedThrough (trace ++ [(input, output)]) fh, direntSize e.name ≤ size) :
    shownThrough (trace ++ [(input, output)]) fh =
      streamFrom 0 ((receivedThrough (trace ++ [(input, output)]) fh).map cEntry) := by
  obtain ⟨hcrash, hmove⟩ := clientStep_move hs
  have hbefore := h.account fh
  cases hmove with
  | crashed | sent | failed => cases hempty
  | @served t₀ _ _ _ _ _ _ cache hnew _ hcache _ =>
    obtain ⟨rfl, hbuf⟩ := Prod.mk.inj (List.mem_singleton.mp hempty)
    have hstart := hop.symm.trans (startedWith_snoc_start (h.started.new hcrash t hnew))
    cases hstart
    obtain ⟨hreceived, hshown⟩ := h.through_snoc rfl hop fh
    rw [hcache] at hbefore
    have hnone : (cache.populateDirEntriesBuffer size).1 = [] := (FuseReply.buf.inj hbuf).symm
    rw [hreceived] at hsizes ⊢
    rw [hshown]
    simp only [received, replied, hnone, List.append_nil, ite_self] at hsizes ⊢
    exact (hbefore.2.populate size).2 hnone hsizes
  | @answered t₀ _ ok resp reply hwaiting _ hfinish =>
    obtain ⟨rfl, rfl⟩ := Prod.mk.inj (List.mem_singleton.mp hempty)
    have hstart := hop.symm.trans (startedWith_snoc_of_some (h.started.waiting t _ hwaiting))
    cases hstart
    obtain ⟨hreceived, hshown⟩ := h.through_snoc rfl hop fh
    rw [hreceived] at hsizes ⊢
    rw [hshown]
    have hfinished := FuseOp.finish_inv hfinish
    generalize s'.handles = handles' at hfinished
    generalize hreply : FuseReply.buf [] = reply at hfinished hsizes ⊢
    -- only a `readdir` replies with a buffer
    cases hfinished with
    | plain hbuf => exact absurd hreply.symm (hbuf [])
    | @more _ _ _ _ _ _ cache refilled resp hcache hentries hoff hrefilled =>
      rw [hcache] at hbefore
      have hholds := hbefore.2.refill hentries hoff resp.ents resp.hasMore
      rw [← hrefilled] at hholds
      have hnone : (refilled.populateDirEntriesBuffer size).1 = [] :=
        (FuseReply.buf.inj hreply).symm
      simp only [received, replied, hnone, if_true, List.append_nil] at hsizes ⊢
      exact (hholds.populate size).2 hnone hsizes

/-- What has been shown is a part from the beginning of what was received. -/
theorem HandlesInv.shown_isPrefix (h : HandlesInv trace s) (fh : ℕ) :
    shownThrough trace fh <+: streamFrom 0 ((receivedThrough trace fh).map cEntry) := by
  have haccount := h.account fh
  cases hcache : s.handles.cache fh with
  | some cache =>
    rw [hcache] at haccount
    exact haccount.2.isPrefix
  | none =>
    rw [hcache] at haccount
    rw [haccount.1, haccount.2]
    exact List.nil_prefix

/-- What the kernel has been shown through a handle is a part from the beginning of what the
handle has received, each name cut at its first NUL, whatever the namenode answers, and all of
it when the last reply was empty and had room for every entry. -/
theorem shownThrough_isPrefix [Libfuse] (h : Run (clientStep opts) ClientState.init trace s)
    (fh : ℕ) :
    shownThrough trace fh <+: streamFrom 0 ((receivedThrough trace fh).map cEntry) ∧
      ∀ before input output t id size off uid gid, trace = before ++ [(input, output)] →
        (t, .buf []) ∈ output.replies →
        startedWith trace t = some (.readDir id size off fh uid gid) →
        (∀ e ∈ receivedThrough trace fh, direntSize e.name ≤ size) →
        shownThrough trace fh = streamFrom 0 ((receivedThrough trace fh).map cEntry) := by
  refine ⟨(handlesInv_run h).shown_isPrefix fh, ?_⟩
  rintro before input output t id size off uid gid rfl hempty hop hsizes
  obtain ⟨s₀, hrun, hs⟩ := h.snoc_inv
  exact (handlesInv_run hrun).shown_all hs hempty hop hsizes

end Handles

/-- Two directories are read at once. The first handle is opened second, gets another page
after the one it was opened on, and is read to its end. -/
def twoReaders : List ClientInput :=
  let page (names : List String) : RpcOutcome :=
    .response (.listDir { ents := names.map fun name => ⟨7, ascii name, 0x4000⟩, hasMore := true })
  [.start 0 (.openDir 5 0 0), .start 1 (.openDir 6 0 0), .complete 1 (page ["x"]) true,
    .complete 0 (page ["a"]) true, .start 2 (.readDir 5 64 0 2 0 0),
    .start 3 (.readDir 6 4096 0 1 0 0), .start 4 (.readDir 5 4096 2 2 0 0),
    .start 5 (.readDir 5 4096 3 2 0 0), .complete 5 (page ["b", "c"]) true,
    .start 6 (.readDir 5 4096 5 2 0 0), .complete 6 (page []) true]

section Sample

open scoped Sample

/-- Its trace. -/
def twoReadersTrace : ClientTrace :=
  ((replay (clientStep {}) ClientState.init twoReaders).map Prod.fst).getD []

/-- The first handle has shown both of its pages, after the two entries that are missing in
the answers. -/
theorem shownThrough_twoReaders :
    (shownThrough twoReadersTrace 2).map Dirent.name =
        [[], [], ascii "a", ascii "b", ascii "c"] ∧
      shownThrough twoReadersTrace 2 =
        streamFrom 0 ((receivedThrough twoReadersTrace 2).map cEntry) := by
  obtain ⟨s, hrun⟩ : ∃ s, Run (clientStep {}) ClientState.init twoReadersTrace s :=
    exists_run_of_replay twoReaders rfl
  refine ⟨by decide, (shownThrough_isPrefix hrun 2).2 (twoReadersTrace.take 10)
    (.complete 6 (.response (.listDir { ents := [], hasMore := true })) true)
    { replies := [(6, .buf [])], deleted := true } 6 5 4096 5 0 0 ?_ ?_ ?_ ?_⟩ <;> decide

end Sample

/-! ### Handles that get one page -/

/-- A handle was opened on this cache. -/
def Opened (trace : ClientTrace) (fh : ℕ) (cache : CacheDirEntries) : Prop :=
  ∃ t resp ok output, (.complete t (.response (.listDir resp)) ok, output) ∈ trace ∧
    (t, .opened fh) ∈ output.replies ∧ cache = FuseOpenDirOp.onSuccess resp

/-- No request for more entries was answered with a page. -/
def OnePage (trace : ClientTrace) : Prop :=
  ∀ t outcome ok output, (.complete t outcome ok, output) ∈ trace →
    ∀ r ∈ output.replies, ∀ dirents, r.2 ≠ .buf dirents

/-- A handle is opened once, and stays open. -/
structure OpenedInv (trace : ClientTrace) (s : ClientState) : Prop where
  lt : ∀ fh cache, Opened trace fh cache → fh < s.handles.nextFh
  cached : ∀ fh cache, Opened trace fh cache → s.handles.cache fh ≠ none
  unique : ∀ fh cache cache', Opened trace fh cache → Opened trace fh cache' → cache = cache'

/-- If there are no further pages, a handle keeps the flag it was opened with, and only
handles with this flag ask for more. -/
structure OnePageInv (trace : ClientTrace) (s : ClientState) : Prop where
  cached : ∀ fh cache, s.handles.cache fh = some cache →
    ∃ opened, Opened trace fh opened ∧ cache.hasMore = opened.hasMore ∧
      receivedThrough trace fh = opened.entries
  asked : ∀ t id size off fh uid gid output,
    (.start t (.readDir id size off fh uid gid), output) ∈ trace → output.sent ≠ none →
    ∃ opened, Opened trace fh opened ∧ opened.hasMore = true

section Opened

variable {opts : FuseOptions} {s s' : ClientState} {trace : ClientTrace} {input : ClientInput}
  {output : ClientOutput} {fh : ℕ} {cache : CacheDirEntries}

theorem not_opened_nil : ¬ Opened [] fh cache := by
  rintro ⟨t, resp, ok, o, hmem, _⟩
  exact absurd hmem List.not_mem_nil

theorem Opened.snoc (h : Opened trace fh cache) : Opened (trace ++ [(input, output)]) fh cache := by
  obtain ⟨t, resp, ok, o, hmem, hrest⟩ := h
  exact ⟨t, resp, ok, o, List.mem_append_left _ hmem, hrest⟩

theorem opened_snoc : Opened (trace ++ [(input, output)]) fh cache ↔ Opened trace fh cache ∨
    ∃ t resp ok, input = .complete t (.response (.listDir resp)) ok ∧
      (t, .opened fh) ∈ output.replies ∧ cache = FuseOpenDirOp.onSuccess resp := by
  constructor
  · rintro ⟨t, resp, ok, o, hmem, hreply, hcache⟩
    rcases List.mem_append.mp hmem with hold | hlast
    · exact .inl ⟨t, resp, ok, o, hold, hreply, hcache⟩
    · obtain ⟨rfl, rfl⟩ := Prod.mk.inj (List.mem_singleton.mp hlast)
      exact .inr ⟨t, resp, ok, rfl, hreply, hcache⟩
  · rintro (hold | ⟨t, resp, ok, rfl, hreply, hcache⟩)
    · exact hold.snoc
    · exact ⟨t, resp, ok, output, List.mem_append_right _ List.mem_cons_self, hreply, hcache⟩

/-- A step opens the next handle, or none. -/
structure OpensNext (handles handles' : Handles) (replies : List (FuseReq × FuseReply)) :
    Prop where
  le : handles.nextFh ≤ handles'.nextFh
  kept : ∀ fh, handles.cache fh ≠ none → handles'.cache fh ≠ none
  opened : ∀ t fh, (t, .opened fh) ∈ replies →
    fh = handles.nextFh ∧ handles'.nextFh = handles.nextFh + 1 ∧ handles'.cache fh ≠ none

theorem OpensNext.of_not_opened {handles handles' : Handles} {replies : List (FuseReq × FuseReply)}
    (hnext : handles'.nextFh = handles.nextFh)
    (hkept : ∀ fh, handles.cache fh ≠ none → handles'.cache fh ≠ none)
    (hopened : ∀ t fh, (t, .opened fh) ∉ replies) : OpensNext handles handles' replies :=
  ⟨hnext ▸ le_rfl, hkept, fun t fh hmem => absurd hmem (hopened t fh)⟩

theorem update_ne_none {f : ℕ → Option CacheDirEntries} (i : ℕ) (a : CacheDirEntries) :
    ∀ j, f j ≠ none → Function.update f i (some a) j ≠ none := by
  intro j hj hnone
  rcases update_cases hnone with ⟨_, heq⟩ | ⟨_, heq⟩
  · cases heq
  · exact hj heq

theorem opensNext_step [Libfuse] (hs : clientStep opts s input = some (s', output)) :
    OpensNext s.handles s'.handles output.replies := by
  obtain ⟨_, hmove⟩ := clientStep_move hs
  cases hmove with
  | crashed _ _ hhandles | sent _ _ hhandles | failed _ _ hhandles =>
    rw [hhandles]
    exact .of_not_opened rfl (fun _ hfh => hfh) fun _ _ => List.not_mem_nil
  | served _ _ _ hhandles =>
    rw [hhandles]
    refine .of_not_opened rfl (update_ne_none _ _) fun t fh hmem => ?_
    cases List.mem_singleton.mp hmem
  | answered _ _ hfinish =>
    have hfinished := FuseOp.finish_inv hfinish
    generalize s'.handles = handles' at hfinished
    cases hfinished with
    | plain _ hopened =>
      refine .of_not_opened rfl (fun _ hfh => hfh) fun t fh hmem => ?_
      exact absurd (Prod.mk.inj (List.mem_singleton.mp hmem)).2.symm (hopened fh)
    | opened resp =>
      refine ⟨Nat.le_succ _, update_ne_none _ _, fun t fh hmem => ?_⟩
      cases List.mem_singleton.mp hmem
      refine ⟨rfl, rfl, ?_⟩
      dsimp only
      rw [Function.update_self]
      nofun
    | more =>
      refine .of_not_opened rfl (update_ne_none _ _) fun t fh hmem => ?_
      cases List.mem_singleton.mp hmem

theorem OpenedInv.step [Libfuse] (h : OpenedInv trace s)
    (hs : clientStep opts s input = some (s', output)) :
    OpenedInv (trace ++ [(input, output)]) s' := by
  have hnext := opensNext_step hs
  -- a handle that is opened at this step is the next one
  have hnew : ∀ fh cache, Opened (trace ++ [(input, output)]) fh cache →
      Opened trace fh cache ∨ (fh = s.handles.nextFh ∧ ∃ t, (t, .opened fh) ∈ output.replies ∧
        ∃ resp ok, input = .complete t (.response (.listDir resp)) ok ∧
          cache = FuseOpenDirOp.onSuccess resp) := by
    intro fh cache hfh
    rcases opened_snoc.mp hfh with hold | ⟨t, resp, ok, hinput, hreply, hcache⟩
    · exact .inl hold
    · exact .inr ⟨(hnext.opened t fh hreply).1, t, hreply, resp, ok, hinput, hcache⟩
  refine ⟨fun fh cache hfh => ?_, fun fh cache hfh => ?_, fun fh cache cache' hfh hfh' => ?_⟩
  · rcases hnew fh cache hfh with hold | ⟨rfl, t, hreply, _⟩
    · exact (h.lt fh cache hold).trans_le hnext.le
    · rw [(hnext.opened t _ hreply).2.1]
      exact Nat.lt_succ_self _
  · rcases hnew fh cache hfh with hold | ⟨_, t, hreply, _⟩
    · exact hnext.kept fh (h.cached fh cache hold)
    · exact (hnext.opened t fh hreply).2.2
  · rcases hnew fh cache hfh with hold | ⟨hfirst, _, _, resp, ok, rfl, rfl⟩
    · rcases hnew fh cache' hfh' with hold' | ⟨hlast, _⟩
      · exact h.unique fh cache cache' hold hold'
      · exact absurd (h.lt fh cache hold) (hlast ▸ lt_irrefl _)
    · rcases hnew fh cache' hfh' with hold' | ⟨_, _, _, _, _, heq, rfl⟩
      · exact absurd (h.lt fh cache' hold') (hfirst ▸ lt_irrefl _)
      · cases heq
        rfl

theorem hasMore_populate [Libfuse] (cache : CacheDirEntries) (size : ℕ) :
    (cache.populateDirEntriesBuffer size).2.hasMore = cache.hasMore := by
  rw [CacheDirEntries.populateDirEntriesBuffer]
  split_ifs <;> rfl

/-- A step that asks for nothing. -/
theorem OnePageInv.step_of (h : OnePageInv trace s) (hsent : output.sent = none)
    (hcached : ∀ fh cache, s'.handles.cache fh = some cache →
      ∃ opened, Opened (trace ++ [(input, output)]) fh opened ∧
        cache.hasMore = opened.hasMore ∧
        receivedThrough (trace ++ [(input, output)]) fh = opened.entries) :
    OnePageInv (trace ++ [(input, output)]) s' where
  cached := hcached
  asked t id size off fh uid gid o hmem ho := by
    rcases List.mem_append.mp hmem with hold | hlast
    · obtain ⟨opened, hopened, hmore⟩ := h.asked t id size off fh uid gid o hold ho
      exact ⟨opened, hopened.snoc, hmore⟩
    · obtain ⟨_, rfl⟩ := Prod.mk.inj (List.mem_singleton.mp hlast)
      exact absurd hsent ho

/-- A handle of which nothing changes. -/
theorem OnePageInv.cached_snoc (h : OnePageInv trace s) (hcache : s.handles.cache fh = some cache)
    (hreceived : receivedThrough (trace ++ [(input, output)]) fh = receivedThrough trace fh) :
    ∃ opened, Opened (trace ++ [(input, output)]) fh opened ∧ cache.hasMore = opened.hasMore ∧
      receivedThrough (trace ++ [(input, output)]) fh = opened.entries := by
  obtain ⟨opened, hopened, hmore, hentries⟩ := h.cached fh cache hcache
  exact ⟨opened, hopened.snoc, hmore, hreceived.trans hentries⟩

theorem OnePageInv.step [Libfuse] (hhandles : HandlesInv trace s) (h : OnePageInv trace s)
    (hpage : OnePage (trace ++ [(input, output)]))
    (hs : clientStep opts s input = some (s', output)) :
    OnePageInv (trace ++ [(input, output)]) s' := by
  obtain ⟨hcrash, hmove⟩ := clientStep_move hs
  cases hmove with
  | crashed _ _ hsame | failed _ _ hsame =>
    refine h.step_of rfl fun fh cache hcache => ?_
    rw [hsame] at hcache
    exact h.cached_snoc hcache (hhandles.through_silent rfl fh).1
  | @sent t op _ _ hsame hmore =>
    refine ⟨fun fh cache hcache => ?_, fun u id size off fh uid gid o hmem ho => ?_⟩
    · rw [hsame] at hcache
      exact h.cached_snoc hcache (hhandles.through_silent rfl fh).1
    · rcases List.mem_append.mp hmem with hold | hlast
      · obtain ⟨opened, hopened, hflag⟩ := h.asked u id size off fh uid gid o hold ho
        exact ⟨opened, hopened.snoc, hflag⟩
      · -- the flag of the cache is the one the handle was opened with
        obtain ⟨hinput, _⟩ := Prod.mk.inj (List.mem_singleton.mp hlast)
        obtain ⟨_, hop⟩ := ClientInput.start.inj hinput
        obtain ⟨cache, hcache, _, hflag⟩ := hmore id size off fh uid gid hop.symm
        obtain ⟨opened, hopened, hflags, _⟩ := h.cached fh cache hcache
        exact ⟨opened, hopened.snoc, hflags ▸ hflag⟩
  | @served t id size off fh₀ uid gid cache₀ hnew _ hcache₀ hset =>
    refine h.step_of rfl fun fh cache hcache => ?_
    have hop : startedWith (trace ++ [(.start t (.readDir id size off fh₀ uid gid),
        { replies := [(t, .buf (cache₀.populateDirEntriesBuffer size).1)]
          deleted := true })]) t = some _ :=
      startedWith_snoc_start (hhandles.started.new hcrash t hnew)
    have hreceived := (hhandles.through_snoc rfl hop fh).1
    rw [show received fh _ _ _ = [] from rfl, List.append_nil] at hreceived
    rw [hset] at hcache
    rcases update_cases hcache with ⟨rfl, heq⟩ | ⟨_, hold⟩
    · obtain rfl := Option.some.inj heq
      rw [hasMore_populate]
      exact h.cached_snoc hcache₀ hreceived
    · exact h.cached_snoc hold hreceived
  | @answered t op ok resp reply hwaiting _ hfinish =>
    refine h.step_of rfl fun fh cache hcache => ?_
    have hop : startedWith (trace ++ [(.complete t (.response resp) ok,
        { replies := [(t, reply)], deleted := resp.errorCode = 0 })]) t = some op :=
      startedWith_snoc_of_some (hhandles.started.waiting t op hwaiting)
    have hreceived := (hhandles.through_snoc rfl hop fh).1
    have hfinished := FuseOp.finish_inv hfinish
    generalize s'.handles = handles' at hfinished hcache
    cases hfinished with
    | plain hbuf hopened =>
      rw [(nothing_through hbuf hopened fh (some op) _).1, List.append_nil] at hreceived
      exact h.cached_snoc hcache hreceived
    | opened resp =>
      simp only [received] at hreceived
      rcases update_cases hcache with ⟨rfl, heq⟩ | ⟨hne, hold⟩
      · obtain rfl := Option.some.inj heq
        rw [if_pos rfl, hhandles.nothing_before.1, List.nil_append] at hreceived
        refine ⟨_, opened_snoc.mpr (.inr ⟨t, resp, ok, rfl, List.mem_cons_self, rfl⟩), rfl,
          hreceived⟩
      · rw [if_neg (Ne.symm hne), List.append_nil] at hreceived
        exact h.cached_snoc hold hreceived
    | more =>
      -- a further page is what is excluded
      exact absurd rfl (hpage t _ ok _ (List.mem_append_right _ List.mem_cons_self) _
        List.mem_cons_self _)

theorem onePageInv_run [Libfuse] (h : Run (clientStep opts) ClientState.init trace s)
    (hpage : OnePage trace) : OnePageInv trace s := by
  induction h with
  | nil =>
    refine ⟨fun fh cache hcache => ?_, fun _ _ _ _ _ _ _ _ hmem => absurd hmem List.not_mem_nil⟩
    cases hcache
  | @snoc trace s s' input output hrun hs ih =>
    -- the condition is on the whole trace, so also on what came before
    have hbefore := ih fun t outcome ok o hmem => hpage t outcome ok o (List.mem_append_left _ hmem)
    exact hbefore.step (handlesInv_run hrun) hpage hs

theorem openedInv_run [Libfuse] (h : Run (clientStep opts) ClientState.init trace s) :
    OpenedInv trace s :=
  h.invariant ⟨fun _ _ hopened => absurd hopened not_opened_nil,
    fun _ _ hopened => absurd hopened not_opened_nil,
    fun _ _ _ hopened => absurd hopened not_opened_nil⟩ fun _ _ _ _ _ _ hinv hs => hinv.step hs

/-- A handle that gets no further pages has received the page it was opened on. -/
theorem OnePageInv.received_eq (h : OnePageInv trace s) (hopened : OpenedInv trace s)
    (hfh : Opened trace fh cache) : receivedThrough trace fh = cache.entries := by
  obtain ⟨last, hlast⟩ := Option.ne_none_iff_exists'.mp (hopened.cached fh cache hfh)
  obtain ⟨opened, hfh', _, hreceived⟩ := h.cached fh last hlast
  rw [hreceived, hopened.unique fh cache opened hfh hfh']

end Opened

end RocketFS
