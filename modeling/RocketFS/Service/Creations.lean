import RocketFS.Service.Namespace
import RocketFS.Service.Threads

/-!
# The directories a run has created

In every run that starts from an empty database, the database stands for the list
of the directories whose `Mkdirs` has written its batch, in the order of the
writes, and every snapshot stands for an initial part of that list
(`creationsInv_run`). A row names the request, the id and the clock reading its
thread shows in the trace. When the ids handed out are fresh, the list is in
creation order, although the parent was looked up in a snapshot that may be older
than the database the row is written to (`CreationsInv.created`).
-/

namespace RocketFS

/-! ### What the trace shows -/

/-- All ids `Next` returned in a run. -/
def handedOut (trace : ServiceTrace) : List InodeID := trace.flatMap fun e => e.1.event.ids

/-- The ids handed out are pairwise distinct and not the root's. -/
def FreshIds (trace : ServiceTrace) : Prop :=
  (handedOut trace).Nodup ∧ kRootInodeID ∉ handedOut trace

instance (trace : ServiceTrace) : Decidable (FreshIds trace) := inferInstanceAs (Decidable (_ ∧ _))

/-- The name in a `Mkdirs` request has a property. -/
def Event.Names (P : Bytes → Prop) : Event → Prop
  | .accept (.mkdirs req) => P req.name
  | _ => True

instance (P : Bytes → Prop) [DecidablePred P] (event : Event) : Decidable (event.Names P) := by
  unfold Event.Names
  split <;> infer_instance

/-- Every `Mkdirs` of the run names its directory. -/
def NonemptyNames (trace : ServiceTrace) : Prop := ∀ e ∈ trace, e.1.event.Names (· ≠ [])

instance (trace : ServiceTrace) : Decidable (NonemptyNames trace) :=
  inferInstanceAs (Decidable (∀ e ∈ trace, _))

theorem mem_idsOf {t : TxnId} {trace : ServiceTrace} {id : InodeID} :
    id ∈ idsOf t trace ↔ ∃ reply, (⟨t, .next (.ok id)⟩, reply) ∈ trace := by
  simp only [idsOf, List.mem_filterMap]
  constructor
  · rintro ⟨⟨⟨u, event⟩, reply⟩, hmem, heq⟩
    dsimp only at heq
    split at heq
    · rename_i id'
      split_ifs at heq with hu
      obtain rfl := Option.some.inj heq
      obtain rfl : u = t := hu
      exact ⟨reply, hmem⟩
    · cases heq
  · rintro ⟨reply, hmem⟩
    exact ⟨_, hmem, by simp⟩

theorem mem_timesOf {t : TxnId} {trace : ServiceTrace} {now : Int64} :
    now ∈ timesOf t trace ↔ ∃ reply, (⟨t, .nowNs now⟩, reply) ∈ trace := by
  simp only [timesOf, List.mem_filterMap]
  constructor
  · rintro ⟨⟨⟨u, event⟩, reply⟩, hmem, heq⟩
    dsimp only at heq
    split at heq
    · rename_i now'
      split_ifs at heq with hu
      obtain rfl := Option.some.inj heq
      obtain rfl : u = t := hu
      exact ⟨reply, hmem⟩
    · cases heq
  · rintro ⟨reply, hmem⟩
    exact ⟨_, hmem, by simp⟩

theorem mem_handedOut {trace : ServiceTrace} {t : TxnId} {id : InodeID}
    (h : id ∈ idsOf t trace) : id ∈ handedOut trace := by
  obtain ⟨reply, hmem⟩ := mem_idsOf.mp h
  exact List.mem_flatMap.mpr ⟨_, hmem, List.mem_singleton.mpr rfl⟩

/-- An id that is handed out once belongs to one thread. -/
theorem thread_unique {trace : ServiceTrace} (h : (handedOut trace).Nodup) {t u : TxnId}
    {id : InodeID} (ht : id ∈ idsOf t trace) (hu : id ∈ idsOf u trace) : t = u := by
  obtain ⟨r, hmem⟩ := mem_idsOf.mp ht
  obtain ⟨r', hmem'⟩ := mem_idsOf.mp hu
  by_contra hne
  have hpair : trace.Pairwise fun a b => List.Disjoint a.1.event.ids b.1.event.ids :=
    (List.nodup_flatMap.mp h).2
  have hsymm : Std.Symm fun a b : ServiceCall × Reply =>
      List.Disjoint a.1.event.ids b.1.event.ids := ⟨fun _ _ hab => hab.symm⟩
  have hdisjoint := hpair.forall hmem hmem' fun heq => hne (by
    have := congrArg (fun e : ServiceCall × Reply => e.1.thread) heq
    exact this)
  exact hdisjoint (List.mem_singleton.mpr rfl) (List.mem_singleton.mpr rfl)

/-! ### The invariant -/

/-- The thread created this row: it handles a `Mkdirs` whose batch is written, and
the row has the id and the clock reading it drew. -/
def Wrote (trace : ServiceTrace) (s : ServiceState) (t : TxnId) (dir : Dir) : Prop :=
  ∃ req rest parentDir now txn, s.thread t = some (.running (.mkdirs req) rest) ∧
    s.kv.session t = some (.committed txn) ∧ idsOf t trace = [dir.id] ∧
    timesOf t trace = [now] ∧ dir = MkdirsOp.newDir req parentDir dir.id now

/-- The rows of a list of creations. -/
abbrev rowsOf (creations : List (TxnId × Dir)) : List Dir := creations.map Prod.snd

/-- The database and all snapshots stand for lists of created directories. -/
structure CreationsInv (fb : FlatBuffers) (trace : ServiceTrace) (s : ServiceState)
    (creations : List (TxnId × Dir)) : Prop where
  db_eq : s.kv.store.db = dbOf fb (rowsOf creations)
  snapshot : ∀ t session txn, s.kv.session t = some session → session.txn? = some txn →
    ∃ n, txn.snapshot = dbOf fb ((rowsOf creations).take n)
  wrote : ∀ t dir, (t, dir) ∈ creations → Wrote trace s t dir
  complete : ∀ t txn, s.kv.session t = some (.committed txn) → t ∈ creations.map Prod.fst
  nodup : (creations.map Prod.fst).Nodup
  parents : ∀ before t dir after, creations = before ++ (t, dir) :: after →
    dir.parentId = kRootInodeID ∨ ∃ e ∈ before, e.2.id = dir.parentId

theorem creationsInv_init (fb : FlatBuffers) :
    CreationsInv fb [] (ServiceState.init .empty) [] where
  db_eq := rfl
  snapshot _ _ _ h := by cases h
  wrote _ _ h := absurd h List.not_mem_nil
  complete _ _ h := by cases h
  nodup := List.nodup_nil
  parents _ _ _ _ h := by simp at h

/-! ### One step -/

section Step

variable {fb : FlatBuffers} {trace : ServiceTrace} {s s' : ServiceState} {t u : TxnId}
  {event : Event} {reply : Reply} {creations : List (TxnId × Dir)}

/-- A thread whose batch is written is finished. -/
theorem ThreadsInv.no_step_of_committed {action : Option Action} {thread' : Thread} {txn : Txn}
    (h : ThreadsInv fb trace s) (hthread : ThreadStep fb (s.thread t) event action reply thread')
    (hcommitted : s.kv.session t = some (.committed txn)) : False := by
  have hinv := h.thread t
  rw [hcommitted] at hinv
  generalize s.thread t = thread at hinv hthread
  cases hthread with
  | accept => exact hinv
  | takeSnapshot => exact hinv
  | next | nextThrew | nowNs | call => exact absurd hinv.2.at_call.1 (by simp [progressOf])

theorem Wrote.frame {dir : Dir} (h : Wrote trace s u dir) (hne : u ≠ t)
    (hthread : s'.thread u = s.thread u) (hsession : s'.kv.session u = s.kv.session u) :
    Wrote (trace ++ [(⟨t, event⟩, reply)]) s' u dir := by
  obtain ⟨req, rest, parentDir, now, txn, h₁, h₂, h₃, h₄, h₅⟩ := h
  refine ⟨req, rest, parentDir, now, txn, hthread.trans h₁, hsession.trans h₂, ?_, ?_, h₅⟩
  · rw [idsOf_snoc_of_ne hne, h₃]
  · rw [timesOf_snoc_of_ne hne, h₄]

/-- What a thread has when it writes its batch. -/
theorem ThreadsInv.commits_of_validated (h : ThreadsInv fb trace s) {txn : Txn}
    (hvalidated : s.kv.session t = some (.validated txn)) :
    ∃ req rest parentDir id now, s.thread t = some (.running (.mkdirs req) rest) ∧
      idsOf t trace = [id] ∧ timesOf t trace = [now] ∧
      txn.writeSet = dirWrites fb (MkdirsOp.newDir req parentDir id now) ∧
      ((⟨req.parentId⟩ : InodeID) = kRootInodeID ∨ txn.snapshot.HasInode ⟨req.parentId⟩) := by
  have hinv := h.thread t
  rw [hvalidated] at hinv
  generalize s.thread t = thread at hinv
  match thread, hinv with
  | some (.running req rest), hinv =>
    obtain ⟨⟨k, rfl⟩, hwp⟩ := hinv
    have hcommits := hwp.at_call.2 rfl
    cases req with
    | mkdirs req =>
      obtain ⟨parentDir, id, now, hids, htimes, hwrites, hparent⟩ := hcommits
      exact ⟨req, _, parentDir, id, now, rfl, hids, htimes, hwrites, hparent⟩
    | getInode req | lookup req | listDir req => exact hcommits.elim

/-- The parent of a row was created before it. -/
theorem CreationsInv.parent_exists (h : CreationsInv fb trace s creations) {txn : Txn}
    {session : Session} {id : InodeID} (hsession : s.kv.session t = some session)
    (htxn : session.txn? = some txn) (hinode : txn.snapshot.HasInode id) :
    ∃ e ∈ creations, e.2.id = id := by
  obtain ⟨n, hsnapshot⟩ := h.snapshot t session txn hsession htxn
  rw [hsnapshot] at hinode
  obtain ⟨dir, hdir, hid⟩ := hasInode_dbOf.mp hinode
  obtain ⟨e, he, rfl⟩ := List.mem_map.mp (List.mem_of_mem_take hdir)
  exact ⟨e, he, hid⟩

/-- A snapshot is the database at the moment it is taken, and does not change. -/
theorem StoreStep.snapshot_cases {kv kv' : KVState} {action : Option Action}
    (h : StoreStep kv t action reply kv') {session' : Session} {txn' : Txn}
    (hsession : kv'.session u = some session') (htxn : session'.txn? = some txn') :
    (u = t ∧ action = some .takeSnapshot ∧ txn'.snapshot = kv.store.db) ∨
      ∃ session txn, kv.session u = some session ∧ session.txn? = some txn ∧
        txn'.snapshot = txn.snapshot := by
  by_cases hu : u = t
  · subst hu
    cases action with
    | none => exact .inr ⟨session', txn', (show kv' = kv from h) ▸ hsession, htxn, rfl⟩
    | some action =>
      obtain ⟨session₁, hstep, hself, _⟩ := kvStep_inv h
      obtain rfl := Option.some.inj (hself.symm.trans hsession)
      refine (hstep.snapshot_cases htxn).imp_left ?_
      rintro ⟨rfl, hnow⟩
      exact ⟨rfl, rfl, hnow⟩
  · exact .inr ⟨session', txn', h.other hu ▸ hsession, htxn, rfl⟩

/-- A step writes a batch and commits its thread, or does neither. -/
theorem StoreStep.db_cases {kv kv' : KVState} {action : Option Action}
    (h : StoreStep kv t action reply kv') :
    (action ≠ some (.writeBatch true) ∧ kv'.store.db = kv.store.db ∧
        ∀ u txn, kv'.session u = some (.committed txn) → kv.session u = some (.committed txn)) ∨
      ∃ txn, kv.session t = some (.validated txn) ∧ action = some (.writeBatch true) ∧
        kv'.session t = some (.committed txn) ∧
        kv'.store.db = kv.store.db.write txn.writeSet := by
  cases action with
  | none =>
    obtain rfl : kv' = kv := h
    exact .inl ⟨nofun, rfl, fun _ _ hu => hu⟩
  | some action =>
    obtain ⟨session₁, hstep, hself, hother⟩ := kvStep_inv h
    rcases hstep.db_cases with ⟨haction, hdb, hnot⟩ | ⟨txn, hvalidated, rfl, rfl, hdb⟩
    · refine .inl ⟨by simpa using haction, hdb, fun u txn hu => ?_⟩
      by_cases hut : u = t
      · subst hut
        exact absurd (Option.some.inj (hself.symm.trans hu)) (hnot txn)
      · rw [← hother u hut, hu]
    · exact .inr ⟨txn, hvalidated, rfl, hself, hdb⟩

/-- The batch is written at the event that says so. -/
theorem ThreadStep.writeBatch_iff {thread : Option Thread} {thread' : Thread}
    {action : Option Action} (h : ThreadStep fb thread event action reply thread') :
    action = some (.writeBatch true) ↔ event = .writeBatch true := by
  cases h with
  | accept | takeSnapshot | next | nextThrew | nowNs => simp
  | @call req op k event action haction reply =>
    unfold Operation.action at haction
    split at haction
    case h_8 => cases haction
    all_goals
      obtain rfl := Option.some.inj haction
      simp

/-- After a step, every snapshot shows the first so many of the rows there were before it. -/
theorem CreationsInv.snapshot_step (h : CreationsInv fb trace s creations)
    {action : Option Action} (hstore : StoreStep s.kv t action reply s'.kv) {session : Session}
    {txn : Txn} (hsession : s'.kv.session u = some session) (htxn : session.txn? = some txn) :
    ∃ n ≤ (rowsOf creations).length, txn.snapshot = dbOf fb ((rowsOf creations).take n) := by
  rcases hstore.snapshot_cases hsession htxn with ⟨_, _, hnow⟩ | ⟨session₀, txn₀, hs₀, ht₀, hsame⟩
  · refine ⟨(rowsOf creations).length, le_rfl, ?_⟩
    rw [hnow, h.db_eq, List.take_length]
  · obtain ⟨n, hn⟩ := h.snapshot u session₀ txn₀ hs₀ ht₀
    refine ⟨min n (rowsOf creations).length, Nat.min_le_right _ _, ?_⟩
    rw [hsame, hn, ← List.take_take, List.take_length]

/-- Every row of a list has its parent before it, also with one more row at the end. -/
theorem CreationsInv.parents_snoc (h : CreationsInv fb trace s creations) {dir : Dir}
    (hparent : dir.parentId = kRootInodeID ∨ ∃ e ∈ creations, e.2.id = dir.parentId) :
    ∀ before u dir' after, creations ++ [(t, dir)] = before ++ (u, dir') :: after →
      dir'.parentId = kRootInodeID ∨ ∃ e ∈ before, e.2.id = dir'.parentId := by
  have halong : Along (fun before e => e.2.parentId = kRootInodeID ∨
      ∃ e' ∈ before, e'.2.id = e.2.parentId) (creations ++ [(t, dir)]) :=
    along_snoc.mpr ⟨fun before e after heq => h.parents before e.1 e.2 after heq, hparent⟩
  exact fun before u dir' after heq => halong before (u, dir') after heq

/-- Until the next batch is written, the list stays as it is. -/
theorem CreationsInv.step_quiet (hthreads : ThreadsInv fb trace s)
    (h : CreationsInv fb trace s creations) {action : Option Action} {thread' : Thread}
    (hthread : ThreadStep fb (s.thread t) event action reply thread')
    (hstore : StoreStep s.kv t action reply s'.kv) (hdb : s'.kv.store.db = s.kv.store.db)
    (hcommitted : ∀ u txn, s'.kv.session u = some (.committed txn) →
      s.kv.session u = some (.committed txn))
    (hother : ∀ u, u ≠ t → s'.thread u = s.thread u) :
    CreationsInv fb (trace ++ [(⟨t, event⟩, reply)]) s' creations where
  db_eq := hdb.trans h.db_eq
  snapshot u session txn hsession htxn := by
    obtain ⟨n, _, hn⟩ := h.snapshot_step hstore hsession htxn
    exact ⟨n, hn⟩
  wrote u dir hmem := by
    have hwrote := h.wrote u dir hmem
    have hne : u ≠ t := by
      rintro rfl
      obtain ⟨_, _, _, _, txn, _, hsession, _⟩ := hwrote
      exact hthreads.no_step_of_committed hthread hsession
    exact hwrote.frame hne (hother u hne) (hstore.other hne)
  complete u txn hu := h.complete u txn (hcommitted u txn hu)
  nodup := h.nodup
  parents := h.parents

/-- The row a batch adds to the list. -/
theorem CreationsInv.step_write (hthreads : ThreadsInv fb trace s)
    (h : CreationsInv fb trace s creations) {thread' : Thread} {txn : Txn}
    (hthread : ThreadStep fb (s.thread t) (.writeBatch true) (some (.writeBatch true)) reply
      thread')
    (hstore : StoreStep s.kv t (some (.writeBatch true)) reply s'.kv)
    (hvalidated : s.kv.session t = some (.validated txn))
    (hcommitted : s'.kv.session t = some (.committed txn))
    (hdb : s'.kv.store.db = s.kv.store.db.write txn.writeSet)
    (hself : s'.thread t = some thread') (hother : ∀ u, u ≠ t → s'.thread u = s.thread u) :
    ∃ dir, CreationsInv fb (trace ++ [(⟨t, .writeBatch true⟩, reply)]) s'
      (creations ++ [(t, dir)]) := by
  obtain ⟨req, rest, parentDir, id, now, hrunning, hids, htimes, hwrites, hparent⟩ :=
    hthreads.commits_of_validated hvalidated
  obtain ⟨rest', rfl⟩ : ∃ rest', thread' = .running (.mkdirs req) rest' := by
    rw [hrunning] at hthread
    cases hthread
    exact ⟨_, rfl⟩
  have hnew : t ∉ creations.map Prod.fst := by
    intro hmem
    obtain ⟨⟨u, dir⟩, hcreated, rfl⟩ := List.mem_map.mp hmem
    obtain ⟨_, _, _, _, _, _, hsession, _⟩ := h.wrote _ dir hcreated
    rw [hvalidated] at hsession
    cases hsession
  refine ⟨MkdirsOp.newDir req parentDir id now, ?_⟩
  constructor
  case db_eq =>
    rw [hdb, hwrites, h.db_eq, rowsOf, rowsOf, List.map_append, List.map_singleton, dbOf_snoc]
  case snapshot =>
    intro u session txn' hsession htxn
    obtain ⟨n, hle, hn⟩ := h.snapshot_step hstore hsession htxn
    refine ⟨n, ?_⟩
    rw [hn, rowsOf, rowsOf, List.map_append, List.take_append_of_le_length hle]
  case wrote =>
    intro u dir hmem
    rcases List.mem_append.mp hmem with hmem | hmem
    · have hne : u ≠ t := fun heq => hnew (heq ▸ List.mem_map_of_mem hmem)
      exact (h.wrote u dir hmem).frame hne (hother u hne) (hstore.other hne)
    · obtain ⟨rfl, rfl⟩ := Prod.mk.inj (List.mem_singleton.mp hmem)
      refine ⟨req, rest', parentDir, now, txn, hself, hcommitted, ?_, ?_, rfl⟩
      · rw [idsOf_snoc_self, hids]
        rfl
      · rw [timesOf_snoc_self, htimes]
        rfl
  case complete =>
    intro u txn' hu
    rw [List.map_append, List.mem_append]
    by_cases hut : u = t
    · exact .inr (by simp [hut])
    · exact .inl (h.complete u txn' (hstore.other hut ▸ hu))
  case nodup =>
    rw [List.map_append, List.map_singleton, ← List.concat_eq_append]
    exact h.nodup.concat hnew
  case parents =>
    -- the parent was in the snapshot, hence in the list
    exact h.parents_snoc (hparent.imp_right fun hinode => h.parent_exists hvalidated rfl hinode)

/-- A step adds the row of the batch it writes, if it writes one. -/
theorem CreationsInv.step (hthreads : ThreadsInv fb trace s)
    (h : CreationsInv fb trace s creations)
    (hs : serviceStep fb s ⟨t, event⟩ = some (s', reply)) :
    (event ≠ .writeBatch true ∧
        CreationsInv fb (trace ++ [(⟨t, event⟩, reply)]) s' creations) ∨
      (event = .writeBatch true ∧ ∃ dir,
        CreationsInv fb (trace ++ [(⟨t, event⟩, reply)]) s' (creations ++ [(t, dir)])) := by
  obtain ⟨action, thread', hthread, hstore, hself, hother⟩ := serviceStep_inv hs
  rcases hstore.db_cases with ⟨haction, hdb, hquiet⟩ | ⟨txn, hvalidated, rfl, hcommitted, hdb⟩
  · refine .inl ⟨mt hthread.writeBatch_iff.mpr haction, ?_⟩
    exact h.step_quiet hthreads hthread hstore hdb hquiet hother
  · obtain rfl := hthread.writeBatch_iff.mp rfl
    exact .inr ⟨rfl, h.step_write hthreads hthread hstore hvalidated hcommitted hdb hself hother⟩

end Step

/-- The invariant holds along every run from the empty database. -/
theorem creationsInv_run {fb : FlatBuffers} {trace : ServiceTrace} {s : ServiceState}
    (h : Run (serviceStep fb) (ServiceState.init .empty) trace s) :
    ∃ creations, CreationsInv fb trace s creations := by
  refine h.invariant (P := fun trace s => ∃ creations, CreationsInv fb trace s creations)
    ⟨[], creationsInv_init fb⟩ ?_
  rintro trace s ⟨t, event⟩ s' reply hrun ⟨creations, hinv⟩ hs
  rcases hinv.step (threadsInv_run hrun) hs with ⟨_, hnext⟩ | ⟨_, dir, hnext⟩
  · exact ⟨creations, hnext⟩
  · exact ⟨_, hnext⟩

/-- With fresh ids, the rows are in creation order. -/
theorem CreationsInv.created {fb : FlatBuffers} {trace : ServiceTrace} {s : ServiceState}
    {creations : List (TxnId × Dir)} (h : CreationsInv fb trace s creations)
    (hfresh : FreshIds trace) : Created (rowsOf creations) where
  nodup := by
    rw [List.map_map]
    refine List.Nodup.map_on ?_ h.nodup.of_map
    rintro ⟨t, dir⟩ ht ⟨u, dir'⟩ hu heq
    obtain ⟨_, _, _, _, _, _, _, hids, _⟩ := h.wrote t dir ht
    obtain ⟨_, _, _, _, _, _, _, hids', _⟩ := h.wrote u dir' hu
    have hid : dir.id = dir'.id := heq
    have ht' : dir.id ∈ idsOf t trace := by simp [hids]
    have hu' : dir.id ∈ idsOf u trace := by simp [hids', hid]
    obtain rfl := thread_unique hfresh.1 ht' hu'
    exact List.inj_on_of_nodup_map h.nodup ht hu rfl
  root_not_mem hmem := by
    obtain ⟨dir, hdir, hroot⟩ := List.mem_map.mp hmem
    obtain ⟨⟨t, _⟩, ht, rfl⟩ := List.mem_map.mp hdir
    obtain ⟨_, _, _, _, _, _, _, hids, _⟩ := h.wrote t _ ht
    exact hfresh.2 (mem_handedOut (t := t) (by simp [hids, ← hroot]))
  parents before dir after heq := by
    obtain ⟨left, right, rfl, rfl, hright⟩ := List.map_eq_append_iff.mp heq
    obtain ⟨⟨t, _⟩, right, rfl, rfl, rfl⟩ := List.map_eq_cons_iff.mp hright
    refine (h.parents left t _ right rfl).imp_right ?_
    rintro ⟨e, he, hid⟩
    exact ⟨e.2, List.mem_map_of_mem he, hid⟩

end RocketFS
