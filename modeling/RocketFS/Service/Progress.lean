import RocketFS.Service.Tree

/-!
# The steps of a request

However the requests on a namenode interleave, each of them takes a bounded number of steps
of its own, and none makes another one start over: a request that has taken all of them has
returned. The bounds are those of the handlers, counted in the calls they make; RocksDB may
report errors. Only the steps are bounded. How long a request waits between two of them, for
its thread or for the lock of the conflict detector, is not part of the model.

## Main definitions

* `Operation.steps` — the steps of a call: the commit has three
* `Request.cost` — the steps of a handler
* `stepsOf` — the steps a thread has taken

## Main results

* `Request.within_run` — the calls of every handler are bounded
* `request_bounded` — a thread takes at most so many steps, and has returned by then
-/

namespace RocketFS

/-- The steps of a call. -/
def Operation.steps : Operation → ℕ
  | .commitTxn => 3
  | _ => 1

theorem Operation.steps_pos (op : Operation) : 0 < op.steps := by
  cases op <;> exact Nat.succ_pos _

/-- The steps of a handler: a row is read in three, and `Mkdirs` draws an id and a time,
writes four records and commits. -/
def Request.cost : Request → ℕ
  | .getInode _ => 3
  | .lookup _ => 1
  | .listDir _ => 7
  | .mkdirs _ => 12

/-! ### The calls of the handlers -/

section Within

variable {fb : FlatBuffers} {n : ℕ} {α : Type}

/-- The reads of a handler that only reads. -/
abbrev ReadsAtMost (p : ReadM α) (n : ℕ) : Prop := p.Within (fun _ => 1) n

theorem ReadsAtMost.lift {p : ReadM α} (h : ReadsAtMost p n) : p.lift.Within Operation.steps n := by
  induction p generalizing n with
  | done result => trivial
  | call op next ih => exact ⟨h.1, fun x => ih x (h.2 x)⟩

theorem reads_get (cf : CFIndex) (key : Bytes) : ReadsAtMost (ReadM.get cf key) 1 :=
  ⟨le_rfl, fun _ => trivial⟩

theorem reads_getRange (cf : CFIndex) (startKey endKey : Bytes) (limit : ℕ) :
    ReadsAtMost (ReadM.getRange cf startKey endKey limit) 1 :=
  ⟨le_rfl, fun _ => trivial⟩

theorem reads_unexpected (msg : Bytes) (error : Status) (location : SourceLocation) :
    ReadsAtMost (unexpected msg error location : ReadM (Except Status α)) 0 :=
  Program.within_liftM_bind fun _ => trivial

theorem KVDirTable.reads_readTime (cf : CFIndex) (id : InodeID) (time condition : String)
    (line : ℕ) : ReadsAtMost (readTime cf id time condition line) 1 := by
  refine Program.Within.bind (m := 0) (reads_get _ _) fun value => ?_
  rcases value with error | _ | str
  · with_reducible exact reads_unexpected _ _ _
  · trivial
  · exact Program.within_liftM_bind fun _ => trivial

theorem KVDirTable.reads_read (id : InodeID) : ReadsAtMost (read fb id) 3 := by
  refine Program.Within.bind (m := 2) (reads_get _ _) fun value => ?_
  rcases value with error | _ | str
  · with_reducible exact (reads_unexpected _ _ _).mono (Nat.zero_le _)
  · trivial
  · refine Program.within_liftM_bind fun inode => ?_
    rcases inode with dir | file
    · refine Program.Within.bind (m := 1) (KVDirTable.reads_readTime _ _ _ _ _) fun mtime => ?_
      rcases mtime with status | mtimeInNs
      · trivial
      · refine Program.Within.bind (m := 0) (KVDirTable.reads_readTime _ _ _ _ _) fun atime => ?_
        rcases atime with status | atimeInNs <;> trivial
    · trivial

theorem KVDEntView.reads_read (parentId : InodeID) (name : Bytes) :
    ReadsAtMost (read fb parentId name) 1 := by
  refine Program.Within.bind (m := 0) (reads_get _ _) fun value => ?_
  rcases value with error | _ | str
  · with_reducible exact reads_unexpected _ _ _
  · trivial
  · exact Program.within_liftM_bind fun _ => trivial

theorem KVDEntView.reads_list (parentId : InodeID) (startAfter : Bytes) (limit : ℕ) :
    ReadsAtMost (list fb parentId startAfter limit) 1 := by
  refine Program.Within.bind (m := 0) (reads_getRange _ _ _ _) fun values => ?_
  rcases values with error | strs
  · with_reducible exact reads_unexpected _ _ _
  · exact Program.within_liftM_bind fun _ => trivial

/-- An answer that reports a status makes no call. -/
theorem reads_status {β : Type} (r : Except Crash Status) (f : Status → β) :
    ReadsAtMost (do return f (← r) : ReadM β) 0 := by
  cases r <;> trivial

theorem GetInodeOp.reads_run (req : GetInodeRequest) : ReadsAtMost (run fb req) 3 := by
  refine Program.Within.bind (m := 0) (KVDirTable.reads_read _) fun row => ?_
  rcases row with error | _ | dir
  · with_reducible exact reads_status _ _
  · with_reducible exact reads_status _ _
  · trivial

theorem LookupOp.reads_run (req : LookupRequest) : ReadsAtMost (run fb req) 1 := by
  refine Program.Within.bind (m := 0) (KVDEntView.reads_read _ _) fun entry => ?_
  rcases entry with error | _ | (dir | hardLink)
  · with_reducible exact reads_status _ _
  · with_reducible exact reads_status _ _
  · trivial
  · trivial

theorem ListDirOp.reads_dots (req : ListDirRequest) (parentId : InodeID) (parentDir : Dir) :
    ReadsAtMost (dots (KVDirTable.table fb) req parentId parentDir) 3 := by
  unfold dots
  split_ifs
  · refine Program.Within.bind (m := 0) ?_ fun parent => ?_
    · unfold parentDent
      split_ifs
      · trivial
      · refine Program.Within.bind (m := 0) (KVDirTable.reads_read _) fun row => ?_
        rcases row with error | _ | dir
        · with_reducible exact reads_unexpected _ _ _
        · trivial
        · trivial
    · rcases parent with status | parent <;> trivial
  · trivial

theorem ListDirOp.reads_run (req : ListDirRequest) : ReadsAtMost (run fb req) 7 := by
  refine Program.Within.bind (m := 4) (KVDirTable.reads_read _) fun row => ?_
  rcases row with error | _ | parentDir
  · with_reducible exact (reads_status _ _).mono (Nat.zero_le _)
  · with_reducible exact (reads_status _ _).mono (Nat.zero_le _)
  · with_reducible refine Program.within_liftM_bind fun permission => ?_
    rcases permission with error | _
    · with_reducible exact (reads_status _ _).mono (Nat.zero_le _)
    · refine Program.Within.bind (m := 1) (ListDirOp.reads_dots _ _ _) fun dots => ?_
      rcases dots with status | ⟨self, parent⟩
      · trivial
      · refine Program.Within.bind (m := 0) (KVDEntView.reads_list _ _ _) fun ents => ?_
        rcases ents with error | ents
        · with_reducible exact reads_status _ _
        · trivial

theorem within_request (op : Operation) :
    (Program.request op : HandlerM op.Answer).Within Operation.steps op.steps :=
  ⟨le_rfl, fun _ => trivial⟩

/-- A new row has four records. -/
theorem KVDirTable.within_write (dir : Dir) :
    (write fb none (some dir)).Within Operation.steps 4 := by
  refine Program.Within.bind (n := 1) (m := 3) (within_request (.put ..)) fun _ => ?_
  refine Program.Within.bind (n := 1) (m := 2) (within_request (.put ..)) fun _ => ?_
  refine Program.Within.bind (n := 1) (m := 1) (within_request (.put ..)) fun _ => ?_
  exact within_request (.put ..)

/-- An id, a time, the records and the commit. -/
theorem MkdirsOp.within_create (req : MkdirsRequest) (parentDir : Dir) :
    (create (KVDirTable.table fb) req parentDir).Within Operation.steps 9 := by
  refine Program.Within.bind (n := 1) (m := 8) (within_request .next) fun id => ?_
  refine Program.Within.bind (n := 1) (m := 7) (within_request .nowNs) fun now => ?_
  refine Program.Within.bind (n := 4) (m := 3) (KVDirTable.within_write _) fun _ => ?_
  exact Program.Within.bind (n := 3) (m := 0) (within_request .commitTxn) fun _ => trivial

theorem MkdirsOp.within_run (req : MkdirsRequest) :
    (run fb req).Within Operation.steps 12 := by
  refine Program.Within.bind (m := 9) (KVDirTable.reads_read _).lift fun row => ?_
  rcases row with error | _ | parentDir
  · trivial
  · trivial
  · with_reducible refine Program.within_liftM_bind fun permission => ?_
    rcases permission with error | _
    · trivial
    · exact MkdirsOp.within_create req parentDir

/-- The calls of every handler are bounded. -/
theorem Request.within_run (req : Request) : (req.run fb).Within Operation.steps req.cost := by
  cases req with
  | getInode req =>
    exact Program.Within.bind (m := 0) (GetInodeOp.reads_run req).lift fun _ => trivial
  | lookup req => exact Program.Within.bind (m := 0) (LookupOp.reads_run req).lift fun _ => trivial
  | listDir req =>
    exact Program.Within.bind (m := 0) (ListDirOp.reads_run req).lift fun _ => trivial
  | mkdirs req => exact Program.Within.bind (m := 0) (MkdirsOp.within_run req) fun _ => trivial

end Within

/-! ### The steps of a thread -/

/-- The steps a thread has taken. -/
def stepsOf (t : TxnId) (trace : ServiceTrace) : ℕ := trace.countP fun e => e.1.thread = t

theorem stepsOf_snoc_self {t : TxnId} {trace : ServiceTrace} {event : Event} {reply : Reply} :
    stepsOf t (trace ++ [(⟨t, event⟩, reply)]) = stepsOf t trace + 1 := by
  simp [stepsOf]

theorem stepsOf_snoc_of_ne {t u : TxnId} {trace : ServiceTrace} {event : Event} {reply : Reply}
    (h : u ≠ t) : stepsOf u (trace ++ [(⟨t, event⟩, reply)]) = stepsOf u trace := by
  simp [stepsOf, h.symm]

/-- The steps of its commit that a session has behind it. -/
def commitSteps : Option Session → ℕ
  | some (.committing _) => 1
  | some (.validated _) => 2
  | _ => 0

/-- The steps a thread has taken, and those it may still take. -/
def StepsInv (t : TxnId) (trace : ServiceTrace) : Option Thread → Option Session → Prop
  | none, _ => stepsOf t trace = 0
  | some (.accepted _), _ => stepsOf t trace = 1
  | some (.running req rest), session => ∃ n, rest.Within Operation.steps n ∧
      stepsOf t trace + n ≤ 2 + req.cost + commitSteps session

section Own

variable {fb : FlatBuffers} {t : TxnId} {trace : ServiceTrace} {req : Request} {event : Event}
  {reply : Reply} {session : Option Session}

/-- A call that takes one step. -/
theorem StepsInv.after_call {op : Operation} {k : op.Answer → HandlerM Response} {x : op.Answer}
    (h : StepsInv t trace (some (.running req (.call op k))) session)
    (hidle : commitSteps session = 0) (hsteps : op.steps = 1) (session' : Option Session) :
    StepsInv t (trace ++ [(⟨t, event⟩, reply)]) (some (.running req (k x))) session' := by
  obtain ⟨n, ⟨hpos, hrest⟩, hle⟩ := h
  refine ⟨n - op.steps, hrest x, ?_⟩
  rw [stepsOf_snoc_self]
  omega

/-- A call after which nothing is left to do. -/
theorem StepsInv.after_crash {op : Operation} {k : op.Answer → HandlerM Response}
    (h : StepsInv t trace (some (.running req (.call op k))) session)
    (hidle : commitSteps session < op.steps) (crash : Crash) (session' : Option Session) :
    StepsInv t (trace ++ [(⟨t, event⟩, reply)]) (some (.running req (.done (.error crash))))
      session' := by
  obtain ⟨n, ⟨hpos, _⟩, hle⟩ := h
  refine ⟨0, trivial, ?_⟩
  rw [stepsOf_snoc_self]
  omega

/-- A part of the commit after which the call has not returned: the step is counted in the
session. -/
theorem StepsInv.after_part {k : Except Status Unit → HandlerM Response} {session' : Session}
    (h : StepsInv t trace (some (.running req (.call .commitTxn k))) session)
    (hpart : commitSteps (some session') = commitSteps session + 1) :
    StepsInv t (trace ++ [(⟨t, event⟩, reply)]) (some (.running req (.call .commitTxn k)))
      (some session') := by
  obtain ⟨n, hrest, hle⟩ := h
  refine ⟨n, hrest, ?_⟩
  rw [stepsOf_snoc_self]
  omega

/-- A part of the commit. -/
theorem StepsInv.step_commit {k : Except Status Unit → HandlerM Response} {action : Action}
    {store store' : KVStore} {session' : Session}
    (hdetector : store.conflictDetector = ⟨.empty, 0⟩)
    (h : StepsInv t trace (some (.running req (.call .commitTxn k))) session)
    (haction : Operation.commitTxn.action event = some action)
    (hstep : SessionStep store session action reply session' store') :
    StepsInv t (trace ++ [(⟨t, event⟩, reply)])
      (some (.running req (Operation.commitTxn.resume k reply))) (some session') := by
  cases hstep with
  | drawStart => cases event <;> cases haction
  | takeSnapshot => cases event <;> cases haction
  | call => cases event <;> cases haction
  | callThrew => cases event <;> cases haction
  | drawCommit txn => exact h.after_part rfl
  | conflictFree txn _ => exact h.after_part rfl
  | conflict txn hconflict =>
    -- nothing is registered with the detector, so it refuses nobody
    exact absurd (hdetector ▸ hconflict) (isConflictFree_ne_false txn)
  | write txn =>
    -- the call returns, and its three steps are counted
    obtain ⟨n, ⟨hpos, hrest⟩, hle⟩ := h
    refine ⟨n - 3, hrest (.ok ()), ?_⟩
    rw [stepsOf_snoc_self]
    simp only [commitSteps, Operation.steps] at hpos hle ⊢
    omega
  | checkThrew txn crash => exact h.after_crash (show 1 < 3 by decide) crash _
  | writeThrew txn crash => exact h.after_crash (show 2 < 3 by decide) crash _

theorem StepsInv.step {action : Option Action} {thread : Option Thread} {thread' : Thread}
    {kv kv' : KVState} (hdetector : kv.store.conflictDetector = ⟨.empty, 0⟩)
    (hinv : ThreadInv fb t trace thread (kv.session t))
    (h : StepsInv t trace thread (kv.session t))
    (hthread : ThreadStep fb thread event action reply thread')
    (hstore : StoreStep kv t action reply kv') :
    StepsInv t (trace ++ [(⟨t, event⟩, reply)]) (some thread') (kv'.session t) := by
  cases hthread with
  | accept req reply =>
    rw [StepsInv, stepsOf_snoc_self, show stepsOf t trace = 0 from h]
  | takeSnapshot req reply =>
    refine ⟨req.cost, req.within_run, ?_⟩
    rw [stepsOf_snoc_self, show stepsOf t trace = 1 from h]
    omega
  | next req k id =>
    obtain ⟨txn, hlive, _⟩ := hinv.live_of_call nofun
    exact h.after_call (by rw [hlive]; rfl) rfl _
  | nextThrew req k crash =>
    obtain ⟨txn, hlive, _⟩ := hinv.live_of_call nofun
    rw [hlive] at h
    exact h.after_crash Nat.zero_lt_one crash _
  | nowNs req k now =>
    obtain ⟨txn, hlive, _⟩ := hinv.live_of_call nofun
    exact h.after_call (by rw [hlive]; rfl) rfl _
  | @call req op k event action haction reply =>
    obtain ⟨session', hstep, hself, _⟩ := kvStep_inv hstore
    rw [hself]
    rcases Operation.action_cases haction with ⟨hop, txnOp, rfl⟩ | ⟨rfl, _⟩
    · obtain ⟨txn, hlive, _⟩ := hinv.live_of_call hop
      have hsteps : op.steps = 1 := by cases op <;> first | rfl | exact absurd rfl hop
      rw [hlive] at h hstep
      generalize kv'.store = store' at hstep
      cases hstep with
      | call hcall =>
        obtain ⟨x, hresume, _⟩ : ∃ x, op.resume k reply = k x ∧
            Answers (progressOf t trace _ false) op x (progressOf t trace _ false) :=
          (call_answers haction hcall k).2.2
        rw [hresume]
        exact h.after_call rfl hsteps _
      | callThrew crash => exact h.after_crash (hsteps ▸ Nat.zero_lt_one) crash _
    · exact h.step_commit hdetector haction hstep

end Own

/-- The invariant holds along every run. -/
theorem stepsInv_run {fb : FlatBuffers} {db : Database} {trace : ServiceTrace} {s : ServiceState}
    (h : Run (serviceStep fb) (ServiceState.init db) trace s) (t : TxnId) :
    StepsInv t trace (s.thread t) (s.kv.session t) := by
  have hinit : StepsInv t [] ((ServiceState.init db).thread t)
      ((ServiceState.init db).kv.session t) := rfl
  refine h.invariant (P := fun trace s => StepsInv t trace (s.thread t) (s.kv.session t)) hinit ?_
  rintro trace s ⟨u, event⟩ s' reply hrun hinv hs
  have hthreads := threadsInv_run hrun
  obtain ⟨action, thread', hthread, hstore, hself, hother⟩ := serviceStep_inv hs
  by_cases ht : t = u
  · subst ht
    rw [hself]
    exact hinv.step hthreads.detector (hthreads.thread t) hthread hstore
  · -- a step of another thread is not counted
    rw [hother t ht, hstore.other ht]
    unfold StepsInv at hinv ⊢
    rw [stepsOf_snoc_of_ne ht]
    exact hinv

/-! ### The bound -/

/-- The handler of a thread has returned. -/
def Thread.finished : Thread → Bool
  | .running _ (.done _) => true
  | _ => false

section Bound

variable {fb : FlatBuffers} {t : TxnId} {trace : ServiceTrace} {req : Request}
  {session : Option Session}

/-- A handler does not return in the middle of its commit. -/
theorem ThreadInv.commitSteps_eq_zero {result : Except Crash Response}
    (h : ThreadInv fb t trace (some (.running req (.done result))) session) :
    commitSteps session = 0 := by
  unfold commitSteps
  split
  · obtain ⟨⟨k, heq⟩, _⟩ := h
    cases heq
  · obtain ⟨⟨k, heq⟩, _⟩ := h
    cases heq
  · rfl

/-- A session in the middle of its commit has a part of the commit still to make. -/
theorem ThreadInv.commitSteps_lt {op : Operation} {k : op.Answer → HandlerM Response}
    (h : ThreadInv fb t trace (some (.running req (.call op k))) session) :
    commitSteps session < op.steps := by
  by_cases hop : op = .commitTxn
  · subst hop
    unfold commitSteps
    split <;> decide
  · obtain ⟨txn, rfl, _⟩ := h.live_of_call hop
    exact op.steps_pos

end Bound

/-- In every run, whatever the other requests do and whatever RocksDB reports, a request
takes at most two steps more than its handler costs, and when it has taken them all its
handler has returned. -/
theorem request_bounded {fb : FlatBuffers} {db : Database} {trace : ServiceTrace}
    {s : ServiceState} (h : Run (serviceStep fb) (ServiceState.init db) trace s) {t : TxnId}
    {thread : Thread} (hthread : s.thread t = some thread) :
    stepsOf t trace ≤ 2 + thread.request.cost ∧
      (stepsOf t trace = 2 + thread.request.cost → thread.finished = true) := by
  have hinv := (threadsInv_run h).thread t
  have hsteps := stepsInv_run h t
  rw [hthread] at hsteps hinv
  cases thread with
  | accepted req =>
    rw [show stepsOf t trace = 1 from hsteps]
    exact ⟨by omega, fun heq => by omega⟩
  | running req rest =>
    obtain ⟨n, hrest, hle⟩ := hsteps
    dsimp only [Thread.request]
    cases rest with
    | done result =>
      rw [hinv.commitSteps_eq_zero] at hle
      exact ⟨by omega, fun _ => rfl⟩
    | call op k =>
      -- the call that is left costs more than the session has counted
      have hlt : commitSteps (s.kv.session t) < n := hinv.commitSteps_lt.trans_le hrest.1
      exact ⟨by omega, fun heq => by omega⟩

/-- The bound is reached: a `Mkdirs` below a directory takes fourteen steps and returns. -/
theorem request_bounded_threeDirectories :
    stepsOf 2 threeDirectoriesTrace = 14 ∧
      ∃ s thread, Run (serviceStep .sample) (ServiceState.init .empty) threeDirectoriesTrace s ∧
        s.thread 2 = some thread ∧ stepsOf 2 threeDirectoriesTrace ≤ 2 + thread.request.cost ∧
        thread.finished = true := by
  obtain ⟨s, hrun, hcost⟩ : ∃ s,
      Run (serviceStep .sample) (ServiceState.init .empty) threeDirectoriesTrace s ∧
        (s.thread 2).map (fun thread => thread.request.cost) = some 12 :=
    exists_run_of_replay_eq threeDirectories
      (fun s : ServiceState => (s.thread 2).map fun thread => thread.request.cost) rfl
  obtain ⟨thread, hthread, hcost⟩ := Option.map_eq_some_iff.mp hcost
  obtain ⟨hle, hfinished⟩ := request_bounded hrun hthread
  exact ⟨rfl, s, thread, hrun, hthread, hle, hfinished (by rw [hcost]; rfl)⟩

end RocketFS
