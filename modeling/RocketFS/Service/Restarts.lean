import RocketFS.Service.Linearizability

/-!
# A database and the processes that serve it

A process ends at any moment, between any two steps of the requests it handles, and the next
one starts on the database it has left behind. What a process does to the database it finds
is done by every process of a life in turn (`life_induction`), and so the requests of all
processes together are linearizable (`life_linearizable`): a request that was cut off has
taken effect or has not, and what a process has answered is there for the next one.

Storage errors do not matter for what is stored: the tree is well formed over the whole life
(`life_wellFormedTree`), and a directory whose creation was acknowledged is found by every
process that comes later (`acknowledged_survives`).

The ids are assumed to be fresh in the way that `caughtUp` says.

## Main definitions

* `observedLifeStep` — a step of the life, with the response that is sent at it
* `lifeHistory` — the requests and responses of all processes

## Main results

* `life_induction` — what every process keeps is kept over the life
* `life_linearizable` — the requests of all processes are linearizable
* `life_wellFormedTree` — the tree is well formed
* `acknowledged_survives` — acknowledged creations are not lost
-/

namespace RocketFS

/-! ### The history of a life -/

/-- A step of the life, with the response that is sent at it. -/
def observedLifeStep (fb : FlatBuffers) (s : LifeState) (event : LifeEvent) :
    Option (LifeState × Option Response) :=
  match lifeStep fb s event with
  | none => none
  | some (s', _) =>
    match event with
    | .call c => some (s', (s'.service.thread c.thread).bind Thread.answer)
    | _ => some (s', none)

/-- The events of a life, with the responses. -/
abbrev LifeTrace := List (LifeEvent × Option Response)

def LifeEvent.isStart : LifeEvent → Bool
  | .start => true
  | _ => false

/-- How many processes have been started. -/
def starts (trace : LifeTrace) : ℕ := trace.countP fun e => e.1.isStart

/-- What is seen of a step of the `n`-th process. A request is named by its process and its
thread. -/
def visibleOfLife (n : ℕ) (e : LifeEvent × Option Response) :
    List (Visible (ℕ × TxnId) Request Response) :=
  match e.1 with
  | .call c => (invocationOf c ++ e.2.toList.map (Visible.respond c.thread)).map (.rename (n, ·))
  | _ => []

/-- The requests and responses from the `n`-th process on. -/
def lifeHistoryFrom : ℕ → LifeTrace → List (Visible (ℕ × TxnId) Request Response)
  | _, [] => []
  | n, e :: rest =>
    visibleOfLife n e ++ lifeHistoryFrom (if e.1.isStart then n + 1 else n) rest

/-- The requests and responses of all processes. -/
def lifeHistory (trace : LifeTrace) : List (Visible (ℕ × TxnId) Request Response) :=
  lifeHistoryFrom 0 trace

/-- What the requests of a process do has a property. -/
def LifeEvent.Calls (P : Event → Prop) : LifeEvent → Prop
  | .call c => P c.event
  | _ => True

instance (P : Event → Prop) [DecidablePred P] (event : LifeEvent) : Decidable (event.Calls P) := by
  unfold LifeEvent.Calls
  split <;> infer_instance

section History

variable {trace : LifeTrace} {e : LifeEvent × Option Response}

theorem lifeHistoryFrom_snoc (n : ℕ) : lifeHistoryFrom n (trace ++ [e]) =
    lifeHistoryFrom n trace ++ visibleOfLife (n + starts trace) e := by
  induction trace generalizing n with
  | nil => simp [lifeHistoryFrom, starts]
  | cons first rest ih =>
    have hstarts : (if first.1.isStart then n + 1 else n) + starts rest =
        n + starts (first :: rest) := by
      rw [starts, starts, List.countP_cons]
      split_ifs <;> omega
    rw [List.cons_append, lifeHistoryFrom, lifeHistoryFrom, ih, List.append_assoc, hstarts]

theorem lifeHistory_snoc : lifeHistory (trace ++ [e]) =
    lifeHistory trace ++ visibleOfLife (starts trace) e := by
  rw [lifeHistory, lifeHistoryFrom_snoc, Nat.zero_add, lifeHistory]

/-- A request of the history was accepted by one of the processes. -/
theorem accept_of_invoke {op : ℕ × TxnId} {req : Request} {n : ℕ}
    (h : .invoke op req ∈ lifeHistoryFrom n trace) :
    ∃ answer, (.call ⟨op.2, .accept req⟩, answer) ∈ trace := by
  induction trace generalizing n with
  | nil => cases h
  | cons first rest ih =>
    rcases List.mem_append.mp h with hfirst | hrest
    · obtain ⟨event, answer⟩ := first
      refine ⟨answer, List.mem_cons.mpr (.inl ?_)⟩
      unfold visibleOfLife at hfirst
      split at hfirst
      · rename_i c heq
        obtain rfl : event = .call c := heq
        obtain ⟨t, rfl, hinvoke⟩ := mem_map_rename_invoke.mp hfirst
        rcases List.mem_append.mp hinvoke with hinvoke | hrespond
        · unfold invocationOf at hinvoke
          split at hinvoke
          · rename_i req' hevent
            obtain ⟨rfl, rfl⟩ := Visible.invoke.inj (List.mem_singleton.mp hinvoke)
            rw [← hevent]
          · cases hinvoke
        · obtain ⟨_, _, heq⟩ := List.mem_map.mp hrespond
          cases heq
      · cases hfirst
    · obtain ⟨answer, hmem⟩ := ih hrest
      exact ⟨answer, List.mem_cons_of_mem _ hmem⟩

theorem starts_snoc : starts (trace ++ [e]) = starts trace + e.1.isStart.toNat := by
  cases h : e.1.isStart <;> simp [starts, h]

end History

theorem observedLifeStep_inv {fb : FlatBuffers} {s s' : LifeState} {event : LifeEvent}
    {answer : Option Response} (h : observedLifeStep fb s event = some (s', answer)) :
    LifeStep fb s event s' ∧
      ∀ c, event = .call c → answer = (s'.service.thread c.thread).bind Thread.answer := by
  rw [observedLifeStep] at h
  split at h
  · cases h
  · rename_i s₁ out hstep
    split at h
    · obtain ⟨rfl, rfl⟩ := Prod.mk.inj (Option.some.inj h)
      refine ⟨lifeStep_inv hstep, fun c heq => ?_⟩
      obtain rfl := LifeEvent.call.inj heq
      rfl
    · rename_i hnot
      obtain ⟨rfl, rfl⟩ := Prod.mk.inj (Option.some.inj h)
      exact ⟨lifeStep_inv hstep, fun c heq => absurd heq (hnot c)⟩

/-! ### One process after another -/

/-- What a process has done to the database it has found. -/
structure Served (fb : FlatBuffers) (A : Event → Prop) (base : List Dir)
    (process : ObservedTrace) (s : ServiceState) : Prop where
  run : Run (observedStep fb) (ServiceState.init (dbOf fb base)) process s
  created : Created base
  fresh : FreshFor (dbOf fb base) (serviceTrace process)
  allowed : ∀ e ∈ process, A e.1.event

/-- The life up to the present: the history of the processes before this one, the directories
they have left, and what this one has done. -/
structure LifeInv (fb : FlatBuffers) (A : Event → Prop)
    (P : List (Visible (ℕ × TxnId) Request Response) → List Dir → Prop) (trace : LifeTrace)
    (s : LifeState) (earlier : List (Visible (ℕ × TxnId) Request Response)) (base : List Dir)
    (process : ObservedTrace) : Prop where
  run : Run (observedStep fb) (ServiceState.init (dbOf fb base)) process s.service
  inv : ProcessInv fb (serviceTrace process) s
  opened : s.opened = dbOf fb base
  created : Created base
  allowed : ∀ e ∈ process, A e.1.event
  history : lifeHistory trace =
    earlier ++ (requestHistory process).map (.rename (starts trace, ·))
  older : ∀ e ∈ earlier, e.op.1 < starts trace
  past : P earlier base

section Life

variable {fb : FlatBuffers} {A : Event → Prop}
  {P : List (Visible (ℕ × TxnId) Request Response) → List Dir → Prop} {trace : LifeTrace}
  {s s' : LifeState} {earlier : List (Visible (ℕ × TxnId) Request Response)} {base : List Dir}
  {process : ObservedTrace} {answer : Option Response}

/-- A step of a request whose process is caught up. -/
theorem ProcessInv.call {trace : ServiceTrace} (h : ProcessInv fb trace s) {c : ServiceCall}
    {gen : IDGen} {service : ServiceState} {reply : Reply} (hguard : caughtUp s (.call c))
    (hdraw : s.draw c.event = some gen)
    (hservice : serviceStep fb s.service c = some (service, reply)) :
    ProcessInv fb (trace ++ [(c, reply)]) { s with service := service, inodeIDGen := gen } := by
  obtain ⟨t, event⟩ := c
  cases event with
  | next result =>
    obtain ⟨hresult, rfl⟩ := LifeState.draw_next hdraw
    cases result with
    | ok id => exact h.call_next hguard hresult hservice
    | error crash =>
      have hroom := (of_decide_eq_true hguard).2.1
      have hgen := IDGen.toNat_next h.small hroom
      exact h.call_quiet hservice rfl (hgen ▸ hroom) (by omega)
  | accept | takeSnapshot | call | nowNs | drawCommit | isConflictFree | writeBatch =>
    obtain rfl := Option.some.inj hdraw
    exact h.call_quiet hservice rfl h.small le_rfl

namespace LifeInv

theorem served (h : LifeInv fb A P trace s earlier base process) :
    Served fb A base process s.service where
  run := h.run
  created := h.created
  fresh := ⟨h.inv.nodup, h.opened ▸ h.inv.drawn_new⟩
  allowed := h.allowed

/-- An event that is not one of a request, and leaves the service alone. -/
theorem step_quiet (h : LifeInv fb A P trace s earlier base process) {event : LifeEvent}
    (hinv : ProcessInv fb (serviceTrace process) s') (hservice : s'.service = s.service)
    (hopened : s'.opened = s.opened) (hstart : event.isStart = false)
    (hvisible : ∀ n, visibleOfLife n (event, answer) = []) :
    LifeInv fb A P (trace ++ [(event, answer)]) s' earlier base process where
  run := hservice ▸ h.run
  inv := hinv
  opened := hopened.trans h.opened
  created := h.created
  allowed := h.allowed
  history := by
    rw [lifeHistory_snoc, hvisible, List.append_nil, starts_snoc, hstart]
    exact h.history
  older e he := by
    rw [starts_snoc]
    exact Nat.lt_add_right _ (h.older e he)
  past := h.past

/-- A step of a request. -/
theorem step_call (h : LifeInv fb A P trace s earlier base process) {c : ServiceCall}
    {gen : IDGen} {service : ServiceState} {reply : Reply} (hguard : caughtUp s (.call c))
    (hallowed : A c.event) (hdraw : s.draw c.event = some gen)
    (hservice : serviceStep fb s.service c = some (service, reply))
    (hanswer : answer = (service.thread c.thread).bind Thread.answer) :
    LifeInv fb A P (trace ++ [(.call c, answer)])
      { s with service := service, inodeIDGen := gen } earlier base
      (process ++ [(c, reply, answer)]) where
  run := by
    refine .snoc h.run ?_
    rw [observedStep, hservice, hanswer]
  inv := by
    rw [serviceTrace_snoc]
    exact h.inv.call hguard hdraw hservice
  opened := h.opened
  created := h.created
  allowed e he := by
    rcases List.mem_append.mp he with hold | hlast
    · exact h.allowed e hold
    · rw [List.mem_singleton.mp hlast]
      exact hallowed
  history := by
    rw [lifeHistory_snoc, h.history, starts_snoc, requestHistory_snoc, List.map_append,
      List.append_assoc]
    rfl
  older := by
    rw [starts_snoc]
    exact h.older
  past := h.past

/-- The requests are those of the processes so far. -/
theorem op_le (h : LifeInv fb A P trace s earlier base process)
    {e : Visible (ℕ × TxnId) Request Response} (he : e ∈ lifeHistory trace) :
    e.op.1 ≤ starts trace := by
  rw [h.history] at he
  rcases List.mem_append.mp he with hold | hnow
  · exact (h.older e hold).le
  · obtain ⟨event, _, rfl⟩ := List.mem_map.mp hnow
    simp

/-- A new process on the database this one leaves behind. -/
theorem step_start (h : LifeInv fb A P trace s earlier base process) {rows : List Dir}
    (hrows : RowsInv fb s.service rows) (hpast : P (lifeHistory trace) rows) :
    LifeInv fb A P (trace ++ [(.start, answer)]) s.start (lifeHistory trace) rows [] where
  run := by
    have hservice : s.start.service = ServiceState.init (dbOf fb rows) :=
      congrArg ServiceState.init hrows.db_eq
    rw [hservice]
    exact .nil
  inv := h.inv.start
  opened := hrows.db_eq
  created := hrows.created
  allowed _ he := absurd he List.not_mem_nil
  history := by
    rw [lifeHistory_snoc]
    rfl
  older e he := by
    rw [starts_snoc]
    exact Nat.lt_succ_of_le (h.op_le he)
  past := hpast

end LifeInv

/-- What every process keeps, from the database it finds to the one it leaves behind, is kept
over the whole life. -/
theorem life_induction (hinit : P [] [])
    (hprocess : ∀ earlier base process s n, Served fb A base process s →
      (∀ e ∈ earlier, e.op.1 < n) → P earlier base →
      ∃ rows, RowsInv fb s rows ∧
        P (earlier ++ (requestHistory process).map (.rename (n, ·))) rows)
    (h : Run (guarded (observedLifeStep fb) caughtUp) LifeState.init trace s)
    (hallowed : ∀ e ∈ trace, e.1.Calls A) :
    ∃ rows, RowsInv fb s.service rows ∧ P (lifeHistory trace) rows := by
  have hnow : ∀ {trace s earlier base process},
      LifeInv fb A P trace s earlier base process →
      ∃ rows, RowsInv fb s.service rows ∧ P (lifeHistory trace) rows := by
    intro trace s earlier base process hinv
    rw [hinv.history]
    exact hprocess earlier base process s.service (starts trace) hinv.served hinv.older hinv.past
  suffices hlife : ∃ earlier base process,
      LifeInv fb A P trace s earlier base process by
    obtain ⟨earlier, base, process, hinv⟩ := hlife
    exact hnow hinv
  induction h with
  | nil =>
    refine ⟨[], [], [], ⟨.nil, processInv_init fb, rfl, created_nil, ?_, rfl, ?_, hinit⟩⟩
    · exact fun _ he => absurd he List.not_mem_nil
    · exact fun _ he => absurd he List.not_mem_nil
  | @snoc trace s s' event answer hrun hs ih =>
    obtain ⟨earlier, base, process, hinv⟩ := ih fun e he => hallowed e (List.mem_append_left _ he)
    have hevent := hallowed _ (List.mem_append_right _ List.mem_cons_self)
    obtain ⟨hguard, hstep⟩ := guarded_eq_some.mp hs
    obtain ⟨hlife, hanswer⟩ := observedLifeStep_inv hstep
    cases hlife with
    | start =>
      obtain ⟨rows, hrows, hpast⟩ := hnow hinv
      exact ⟨_, rows, [], hinv.step_start hrows hpast⟩
    | sample nowNs =>
      refine ⟨earlier, base, process, ?_⟩
      rcases s.sample_cases nowNs with ⟨_, _, hsample⟩ | ⟨_, _, hsample⟩
      all_goals
        exact hinv.step_quiet (hinv.inv.sample nowNs) (by rw [hsample]) (by rw [hsample]) rfl
          fun _ => rfl
    | store hpending =>
      have hstored := hinv.inv.store (of_decide_eq_true hguard _ hpending)
      exact ⟨earlier, base, process, hinv.step_quiet hstored rfl rfl rfl fun _ => rfl⟩
    | @call c gen service reply hdraw hservice =>
      exact ⟨earlier, base, _,
        hinv.step_call hguard hevent hdraw hservice (hanswer c rfl)⟩

end Life

/-! ### Linearizability -/

/-- A process continues the history of those before it. -/
theorem Served.linearizes {fb : FlatBuffers} {base : List Dir} {process : ObservedTrace}
    {s : ServiceState} (h : Served fb (fun event => event.faultFree) base process s) {n : ℕ}
    {earlier : List (Visible (ℕ × TxnId) Request Response)}
    {order : List (Effect (ℕ × TxnId) Request Response)} (holder : ∀ e ∈ earlier, e.op.1 < n)
    (horder : Linearizes (NamespaceStep fb) [] earlier order base) :
    ∃ rows, RowsInv fb s rows ∧ ∃ order', Linearizes (NamespaceStep fb) []
      (earlier ++ (requestHistory process).map (.rename (n, ·))) order' rows := by
  have hfault : FaultFree (serviceTrace process) := by
    intro e hmem
    obtain ⟨e, he, rfl⟩ := List.mem_map.mp hmem
    exact h.allowed e he
  obtain ⟨more, rows, hinv⟩ := linearInv_run h.run h.created h.fresh hfault
  refine ⟨rows, hinv.standsFor, _, horder.append
    (hinv.linearizes.rename (Prod.mk_right_injective n)) fun op input input' hold hnow => ?_⟩
  -- the requests of this process are not among those before
  obtain ⟨event, _, heq⟩ := List.mem_map.mp hnow
  have hop : n = op.1 := by
    have hsame := congrArg Visible.op heq
    rw [Visible.op_rename] at hsame
    exact congrArg Prod.fst hsame
  exact absurd (holder _ hold) (hop ▸ lt_irrefl _)

/-- The order in which the requests of all processes take effect, on the directories created
so far. -/
theorem life_namespace {fb : FlatBuffers} {trace : LifeTrace} {s : LifeState}
    (h : Run (guarded (observedLifeStep fb) caughtUp) LifeState.init trace s)
    (hfault : ∀ e ∈ trace, e.1.Calls fun event => event.faultFree) :
    ∃ rows, RowsInv fb s.service rows ∧
      ∃ order, Linearizes (NamespaceStep fb) [] (lifeHistory trace) order rows :=
  life_induction
    (P := fun history rows => ∃ order, Linearizes (NamespaceStep fb) [] history order rows)
    ⟨[], .init⟩ (fun _ _ _ _ _ hserved holder ⟨_, horder⟩ => hserved.linearizes holder horder) h
    hfault

/-- The requests of all processes are linearizable: those that were answered take effect
between their acceptance and their response, on what the processes before have left, and
those that were cut off take effect or do not. -/
theorem life_linearizable {fb : FlatBuffers} {trace : LifeTrace} {s : LifeState}
    (h : Run (guarded (observedLifeStep fb) caughtUp) LifeState.init trace s)
    (hfault : ∀ e ∈ trace, e.1.Calls fun event => event.faultFree) :
    ∃ order, Linearizes (Atomic fb) .empty (lifeHistory trace) order s.db := by
  obtain ⟨rows, hrows, order, horder⟩ := life_namespace h hfault
  refine ⟨order, ?_⟩
  rw [LifeState.db, hrows.db_eq]
  exact horder.mapState (dbOf fb) fun rows req resp rows' hstep => hstep.atomic

/-- A process creates a directory, and ends while it creates a second one; the next process
reads the first one and looks up the second. -/
def cutOff : List LifeEvent :=
  [.start, .sample 1742256005000000, .store] ++ mkdirsUpToNext (ascii "a") 1 ++ mkdirsFromNext 6 ++
    [.call ⟨1, .accept (.mkdirs ⟨1, ascii "b", 0x1ED, 0, 0⟩)⟩, .call ⟨1, .takeSnapshot⟩,
      .call ⟨1, .call none⟩, .call ⟨1, .next (.ok ⟨7⟩)⟩,
      .start, .sample 1742256009000000, .store,
      .call ⟨0, .accept (.getInode ⟨some 6⟩)⟩, .call ⟨0, .takeSnapshot⟩, .call ⟨0, .call none⟩,
      .call ⟨0, .call none⟩, .call ⟨0, .call none⟩,
      .call ⟨1, .accept (.lookup ⟨1, ascii "b"⟩)⟩, .call ⟨1, .takeSnapshot⟩, .call ⟨1, .call none⟩]

/-- Its trace. -/
def cutOffTrace : LifeTrace :=
  ((replay (guarded (observedLifeStep .sample) caughtUp) LifeState.init cutOff).map
    Prod.fst).getD []

theorem cutOffTrace_run :
    ∃ s, Run (guarded (observedLifeStep .sample) caughtUp) LifeState.init cutOffTrace s :=
  exists_run_of_replay cutOff rfl

/-- The first directory is found by the second process, the second is not. -/
theorem life_linearizable_cutOff :
    cutOffTrace.filterMap (fun e => e.2.map Response.errorCode) =
        [0, 0, StatusCode.notFoundError.toInt32] ∧
      ∃ s, Run (guarded (observedLifeStep .sample) caughtUp) LifeState.init cutOffTrace s ∧
        ∃ order, Linearizes (Atomic .sample) .empty (lifeHistory cutOffTrace) order s.db := by
  obtain ⟨s, hrun⟩ := cutOffTrace_run
  exact ⟨by decide, s, hrun, life_linearizable hrun (by decide)⟩

/-! ### What is stored -/

/-- The rows of a process: those it has found, and those its threads have written. -/
structure StoredInv (fb : FlatBuffers) (base : List Dir) (trace : ServiceTrace) (s : ServiceState)
    (rows : List Dir) : Prop where
  standsFor : RowsInv fb s rows
  kept : ∀ dir ∈ base, dir ∈ rows
  written : ∀ dir ∈ rows, dir ∈ base ∨ ∃ t, Wrote trace s t dir
  complete : ∀ t txn, s.kv.session t = some (.committed txn) → ∃ dir ∈ rows, Wrote trace s t dir

section Stored

variable {fb : FlatBuffers} {base rows : List Dir} {trace : ServiceTrace} {s s' : ServiceState}
  {t : TxnId} {event : Event} {reply : Reply}

/-- A row stays written when another thread moves. -/
theorem StoredInv.wrote_frame {thread' : Thread} {action : Option Action} {u : TxnId} {dir : Dir}
    (hthreads : ThreadsInv fb trace s)
    (hthread : ThreadStep fb (s.thread t) event action reply thread')
    (hstore : StoreStep s.kv t action reply s'.kv) (hother : ∀ u, u ≠ t → s'.thread u = s.thread u)
    (h : Wrote trace s u dir) : Wrote (trace ++ [(⟨t, event⟩, reply)]) s' u dir := by
  have hne : u ≠ t := by
    rintro rfl
    obtain ⟨_, _, _, _, txn, _, hcommitted, _⟩ := h
    exact hthreads.no_step_of_committed hthread hcommitted
  exact h.frame hne (hother u hne) (hstore.other hne)

theorem StoredInv.step {db : Database} (hrun : Run (serviceStep fb) (ServiceState.init db) trace s)
    (hfresh : FreshFor db trace) (h : StoredInv fb base trace s rows)
    (hs : serviceStep fb s ⟨t, event⟩ = some (s', reply)) :
    ∃ rows', StoredInv fb base (trace ++ [(⟨t, event⟩, reply)]) s' rows' := by
  have hthreads := threadsInv_run hrun
  obtain ⟨action, thread', hthread, hstore, hself, hother⟩ := serviceStep_inv hs
  have hframe : ∀ u dir, Wrote trace s u dir → Wrote (trace ++ [(⟨t, event⟩, reply)]) s' u dir :=
    fun u dir hwrote => StoredInv.wrote_frame hthreads hthread hstore hother hwrote
  have hwritten : ∀ dir ∈ rows, dir ∈ base ∨
      ∃ u, Wrote (trace ++ [(⟨t, event⟩, reply)]) s' u dir := by
    intro dir hdir
    refine (h.written dir hdir).imp_right ?_
    rintro ⟨u, hwrote⟩
    exact ⟨u, hframe u dir hwrote⟩
  rcases hstore.db_cases with ⟨_, hdb, hquiet⟩ | ⟨txn, hvalidated, rfl, hcommitted, hdb⟩
  · refine ⟨rows, h.standsFor.step_quiet hstore hdb, h.kept, hwritten, fun u txn hu => ?_⟩
    obtain ⟨dir, hdir, hwrote⟩ := h.complete u txn (hquiet u txn hu)
    exact ⟨dir, hdir, hframe u dir hwrote⟩
  · obtain rfl := hthread.writeBatch_iff.mp rfl
    obtain ⟨req, rest, parentDir, id, now, hrunning, hids, htimes, hwrites, hparent⟩ :=
      hthreads.commits_of_validated hvalidated
    obtain ⟨rest', rfl⟩ : ∃ rest', thread' = .running (.mkdirs req) rest' := by
      rw [hrunning] at hthread
      cases hthread
      exact ⟨_, rfl⟩
    obtain ⟨_, _, hcreated⟩ :=
      h.standsFor.created_snoc hrun hfresh hvalidated hids hparent parentDir now
    have hwrote : Wrote (trace ++ [(⟨t, .writeBatch true⟩, reply)]) s' t
        (MkdirsOp.newDir req parentDir id now) := by
      refine ⟨req, rest', parentDir, now, txn, hself, hcommitted, ?_, ?_, rfl⟩
      · rw [idsOf_snoc_self, hids]
        rfl
      · rw [timesOf_snoc_self, htimes]
        rfl
    refine ⟨_, h.standsFor.step_row hstore (hdb.trans (congrArg _ hwrites)) hcreated,
      fun dir hdir => List.mem_append_left _ (h.kept dir hdir), fun dir hdir => ?_,
      fun u txn' hu => ?_⟩
    · rcases List.mem_append.mp hdir with hold | hlast
      · exact hwritten dir hold
      · rw [List.mem_singleton.mp hlast]
        exact .inr ⟨t, hwrote⟩
    · by_cases hut : u = t
      · exact ⟨_, List.mem_append_right _ List.mem_cons_self, hut ▸ hwrote⟩
      · obtain ⟨dir, hdir, hold⟩ := h.complete u txn' (hstore.other hut ▸ hu)
        exact ⟨dir, List.mem_append_left _ hdir, hframe u dir hold⟩

theorem storedInv_run (h : Run (serviceStep fb) (ServiceState.init (dbOf fb base)) trace s)
    (hbase : Created base) (hfresh : FreshFor (dbOf fb base) trace) :
    ∃ rows, StoredInv fb base trace s rows := by
  induction h with
  | nil =>
    refine ⟨base, rowsInv_init hbase, fun _ hdir => hdir, fun _ hdir => .inl hdir, ?_⟩
    intro t txn ht
    cases ht
  | @snoc trace s s' c reply hrun hs ih =>
    obtain ⟨rows, hinv⟩ := ih hfresh.of_append
    exact hinv.step hrun hfresh.of_append hs

/-- A `Mkdirs` that has answered success has committed, and answers with the id it drew. -/
theorem ThreadInv.acknowledged {req : MkdirsRequest} {resp : MkdirsResponse}
    {session : Option Session}
    (h : ThreadInv fb t trace (some (.running (.mkdirs req) (.done (.ok (.mkdirs resp))))) session)
    (hok : resp.errorCode = 0) :
    ∃ txn id, session = some (.committed txn) ∧ idsOf t trace = [id] ∧ resp.id = id.val := by
  rcases session with _ | (_ | txn | txn | txn | txn | txn | crash)
  · exact h.elim
  · exact h.elim
  · obtain ⟨hcommitted, _⟩ := h hok
    cases hcommitted
  · obtain ⟨⟨k, heq⟩, _⟩ := h
    cases heq
  · obtain ⟨⟨k, heq⟩, _⟩ := h
    cases heq
  · obtain ⟨_, id, hids, hid⟩ := h.2 hok
    exact ⟨txn, id, rfl, hids, hid⟩
  · exact h.elim
  · obtain ⟨crash, heq⟩ := h
    cases heq

end Stored

/-- A response is that of a thread that has finished. -/
theorem finished_of_respond {fb : FlatBuffers} {db : Database} {trace : ObservedTrace}
    {s : ServiceState} (h : Run (observedStep fb) (ServiceState.init db) trace s) {t : TxnId}
    {resp : Response} (hmem : .respond t resp ∈ requestHistory trace) :
    ∃ req, s.thread t = some (.running req (.done (.ok resp))) := by
  induction h with
  | nil => cases hmem
  | @snoc trace s s' c o _ hs ih =>
    obtain ⟨reply, answer⟩ := o
    obtain ⟨u, event⟩ := c
    obtain ⟨hstep, rfl⟩ := observedStep_inv hs
    obtain ⟨_, thread', hthread, _, hself, hother⟩ := serviceStep_inv hstep
    rw [requestHistory_snoc, List.mem_append] at hmem
    rcases hmem with hold | hnow
    · obtain ⟨req, hfinished⟩ := ih hold
      have hne : t ≠ u := by
        rintro rfl
        rw [hfinished] at hthread
        cases hthread
      exact ⟨req, (hother t hne).trans hfinished⟩
    · rw [visibleOf, List.mem_append] at hnow
      rcases hnow with hinvoke | hrespond
      · unfold invocationOf at hinvoke
        split at hinvoke
        · cases List.mem_singleton.mp hinvoke
        · cases hinvoke
      · obtain ⟨resp', hresp, heq⟩ := List.mem_map.mp hrespond
        obtain ⟨rfl, rfl⟩ := Visible.respond.inj heq
        rw [hself] at hresp ⊢
        unfold Thread.answer at hresp
        rcases thread' with _ | ⟨req, (_ | resp') | _⟩ <;> simp at hresp
        obtain rfl := hresp
        exact ⟨req, rfl⟩

/-- A `Mkdirs` was answered with success. -/
def Acknowledged {τ : Type} (history : List (Visible τ Request Response)) (op : τ)
    (req : MkdirsRequest) (resp : MkdirsResponse) : Prop :=
  .invoke op (.mkdirs req) ∈ history ∧ .respond op (.mkdirs resp) ∈ history ∧ resp.errorCode = 0

/-- The row a `Mkdirs` was acknowledged with. -/
def RowOf (req : MkdirsRequest) (resp : MkdirsResponse) (dir : Dir) : Prop :=
  dir.id = ⟨resp.id⟩ ∧ dir.parentId = ⟨req.parentId⟩ ∧ dir.name = req.name

/-- All directories have names, and those that were acknowledged are there. -/
def Kept (history : List (Visible (ℕ × TxnId) Request Response)) (rows : List Dir) : Prop :=
  (∀ dir ∈ rows, dir.name ≠ []) ∧
    ∀ op req resp, Acknowledged history op req resp → ∃ dir ∈ rows, RowOf req resp dir

section Kept

variable {fb : FlatBuffers} {base : List Dir} {process : ObservedTrace} {s : ServiceState}

/-- What this process has acknowledged is stored. -/
theorem StoredInv.acknowledged {rows : List Dir}
    (hrun : Run (observedStep fb) (ServiceState.init (dbOf fb base)) process s)
    (h : StoredInv fb base (serviceTrace process) s rows) {t : TxnId} {req : MkdirsRequest}
    {resp : MkdirsResponse} (hacknowledged : Acknowledged (requestHistory process) t req resp) :
    ∃ dir ∈ rows, RowOf req resp dir := by
  obtain ⟨hinvoke, hrespond, hok⟩ := hacknowledged
  obtain ⟨req', hfinished⟩ := finished_of_respond hrun hrespond
  obtain ⟨thread, hthread, hreq⟩ := (invoked_iff hrun).mp hinvoke
  obtain rfl : req' = .mkdirs req := by
    rw [hfinished] at hthread
    obtain rfl := Option.some.inj hthread
    exact hreq
  have hinv := (threadsInv_run (run_of_observed hrun)).thread t
  rw [hfinished] at hinv
  obtain ⟨txn, id, hcommitted, hids, hid⟩ := hinv.acknowledged hok
  obtain ⟨dir, hdir, req', _, _, _, _, hrunning, _, hids', _, hrow⟩ := h.complete t txn hcommitted
  obtain ⟨rfl, _⟩ : req = req' ∧ _ := by
    rw [hfinished] at hrunning
    cases hrunning
    exact ⟨rfl, trivial⟩
  have hdirId : dir.id = id := by
    rw [hids'] at hids
    exact List.singleton_inj.mp hids
  refine ⟨dir, hdir, ?_, ?_, ?_⟩
  · rw [hdirId, hid]
  · rw [hrow]
    rfl
  · rw [hrow]
    rfl

/-- A process keeps what it has found, and what it acknowledges. -/
theorem Served.kept (h : Served fb (·.Names (· ≠ [])) base process s) {n : ℕ}
    {earlier : List (Visible (ℕ × TxnId) Request Response)} (holder : ∀ e ∈ earlier, e.op.1 < n)
    (hkept : Kept earlier base) :
    ∃ rows, RowsInv fb s rows ∧
      Kept (earlier ++ (requestHistory process).map (.rename (n, ·))) rows := by
  have hrun := run_of_observed h.run
  obtain ⟨rows, hinv⟩ := storedInv_run hrun h.created h.fresh
  refine ⟨rows, hinv.standsFor, fun dir hdir => ?_, ?_⟩
  · rcases hinv.written dir hdir with hold | ⟨t, req, _, _, _, _, hthread, _, _, _, hrow⟩
    · exact hkept.1 dir hold
    · obtain ⟨reply, hmem⟩ := (accepted_run hrun t (.mkdirs req)).mp ⟨_, hthread, rfl⟩
      obtain ⟨e, he, heq⟩ := List.mem_map.mp hmem
      have hname := h.allowed e he
      rw [(Prod.mk.inj heq).1] at hname
      rw [hrow]
      exact hname
  · rintro op req resp ⟨hinvoke, hrespond, hok⟩
    -- the events of one request are all in one process
    have hop : ∀ event ∈ (requestHistory process).map (Visible.rename (n, ·)), event.op.1 = n := by
      intro event hevent
      obtain ⟨_, _, rfl⟩ := List.mem_map.mp hevent
      simp
    rcases List.mem_append.mp hinvoke with hi | hi
    · rcases List.mem_append.mp hrespond with hr | hr
      · obtain ⟨dir, hdir, hrow⟩ := hkept.2 op req resp ⟨hi, hr, hok⟩
        exact ⟨dir, hinv.kept dir hdir, hrow⟩
      · have hlt := holder _ hi
        have heq := hop _ hr
        exact absurd heq hlt.ne
    · rcases List.mem_append.mp hrespond with hr | hr
      · have hlt := holder _ hr
        have heq := hop _ hi
        exact absurd heq hlt.ne
      · obtain ⟨t, rfl, hinvoke'⟩ := mem_map_rename_invoke.mp hi
        obtain ⟨u, heq, hrespond'⟩ := mem_map_rename_respond.mp hr
        obtain rfl : t = u := congrArg Prod.snd heq
        exact hinv.acknowledged h.run ⟨hinvoke', hrespond', hok⟩

/-- What is kept over the life. -/
theorem kept_life {trace : LifeTrace} {s : LifeState}
    (h : Run (guarded (observedLifeStep fb) caughtUp) LifeState.init trace s)
    (hnames : ∀ e ∈ trace, e.1.Calls (·.Names (· ≠ []))) :
    ∃ rows, RowsInv fb s.service rows ∧ Kept (lifeHistory trace) rows := by
  refine life_induction ⟨?_, ?_⟩ (fun _ _ _ _ _ hserved holder hkept => hserved.kept holder hkept)
    h hnames
  · exact fun _ hdir => absurd hdir List.not_mem_nil
  · exact fun _ _ _ hacknowledged => absurd hacknowledged.1 List.not_mem_nil

/-- Over the whole life of a database, across any number of processes that end between any
two steps, the directory tree is well formed. -/
theorem life_wellFormedTree {trace : LifeTrace} {s : LifeState}
    (h : Run (guarded (observedLifeStep fb) caughtUp) LifeState.init trace s)
    (hnames : ∀ e ∈ trace, e.1.Calls (·.Names (· ≠ []))) : WellFormedTree fb s.db := by
  obtain ⟨rows, hrows, hkept⟩ := kept_life h hnames
  rw [LifeState.db, hrows.db_eq]
  exact wellFormedTree_dbOf hrows.created hkept.1

theorem life_wellFormedTree_cutOff :
    ∃ s, Run (guarded (observedLifeStep .sample) caughtUp) LifeState.init cutOffTrace s ∧
      WellFormedTree .sample s.db := by
  obtain ⟨s, hrun⟩ := cutOffTrace_run
  exact ⟨s, hrun, life_wellFormedTree hrun (by decide)⟩

/-- A directory whose creation was acknowledged by some process is read with its parent and
its name from then on, by this process and by all later ones. -/
theorem acknowledged_survives {trace : LifeTrace} {s : LifeState}
    (h : Run (guarded (observedLifeStep fb) caughtUp) LifeState.init trace s)
    (hnames : ∀ e ∈ trace, e.1.Calls (·.Names (· ≠ []))) {op : ℕ × TxnId} {req : MkdirsRequest}
    {resp : MkdirsResponse} (hacknowledged : Acknowledged (lifeHistory trace) op req resp) :
    ∃ dir, ask s.db (KVDirTable.read fb ⟨resp.id⟩) = .ok (.ok (some dir)) ∧
      RowOf req resp dir := by
  obtain ⟨rows, hrows, hnamed, hkept⟩ := kept_life h hnames
  obtain ⟨dir, hdir, hid, hrow⟩ := hkept op req resp hacknowledged
  rw [LifeState.db, hrows.db_eq, ← hid]
  exact ⟨_, ask_read_dbOf hrows.created hdir (hnamed dir hdir), hid, hrow⟩

/-- The second process reads what the first has acknowledged. -/
theorem acknowledged_survives_cutOff :
    ∃ s, Run (guarded (observedLifeStep .sample) caughtUp) LifeState.init cutOffTrace s ∧
      ∃ dir, ask s.db (KVDirTable.read .sample ⟨6⟩) = .ok (.ok (some dir)) ∧
        dir.name = ascii "a" := by
  obtain ⟨s, hrun⟩ := cutOffTrace_run
  let req : MkdirsRequest := ⟨1, ascii "a", 0x1ED, 0, 0⟩
  have hacknowledged : Acknowledged (lifeHistory cutOffTrace) (1, 0) req
      (MkdirsOp.success (MkdirsOp.newDir req rootDir ⟨6⟩ 70)) := by
    unfold Acknowledged
    decide
  obtain ⟨dir, hread, _, _, hname⟩ := acknowledged_survives hrun (by decide) hacknowledged
  exact ⟨s, hrun, dir, hread, hname⟩

end Kept

end RocketFS
