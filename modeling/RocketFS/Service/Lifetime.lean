import RocketFS.Common.IDGen
import RocketFS.Service.Creations

/-!
# The ids of a database over its whole life

A database is served by one process after another. Each begins with a new
generator at zero and a new store on the database it finds; the thread of
`IDGenMgr` samples the clock and updates the generator while requests draw ids from
it. An id is fresh when the generator has been moved past everything the process
found in the database, and when no increment is lost to an update.

## Main definitions

* `LifeState`, `lifeStep` — the machine of process starts, clock samples and requests
* `caughtUp` — the condition on the steps that draw an id or store an update

## Main results

* `inode_step` — the inode records one step of the service writes
* `lifeStep_inv` — what a step of the life can do
* `fresh_of_caughtUp` — the ids drawn are fresh and no inode is overwritten
-/

namespace RocketFS

/-! ### Inode records of one process -/

section Service

variable {fb : FlatBuffers} {db : Database} {trace : ServiceTrace} {s s' : ServiceState}
  {t : TxnId} {event : Event} {reply : Reply}

/-- A step leaves the inode records as they are, or writes the one whose id its
thread has drawn. -/
theorem inode_step (h : ThreadsInv fb trace s)
    (hstep : serviceStep fb s ⟨t, event⟩ = some (s', reply)) :
    ((∀ key, s'.kv.store.db.get kInodeCFIndex key = s.kv.store.db.get kInodeCFIndex key) ∧
        ∀ u txn, s.kv.session u = some (.committed txn) → s'.kv.session u = some (.committed txn)) ∨
      ∃ dir, idsOf t trace = [dir.id] ∧ event.ids = [] ∧
        (∀ txn, s.kv.session t ≠ some (.committed txn)) ∧
        (∃ txn, s'.kv.session t = some (.committed txn)) ∧
        (∀ u, u ≠ t → s'.kv.session u = s.kv.session u) ∧
        ∀ key, s'.kv.store.db.get kInodeCFIndex key =
          if key = InodeSerde.serKey dir.id then some (InodeSerde.serValDir fb dir)
          else s.kv.store.db.get kInodeCFIndex key := by
  obtain ⟨action, thread', hthread, hstore, _, _⟩ := serviceStep_inv hstep
  rcases hstore.db_cases with ⟨_, hdb, _⟩ | ⟨txn, hvalidated, rfl, hcommitted, hdb⟩
  · refine .inl ⟨fun key => by rw [hdb], fun u txn hu => ?_⟩
    have hne : u ≠ t := by
      rintro rfl
      exact h.no_step_of_committed hthread hu
    rw [hstore.other hne, hu]
  · obtain ⟨req, rest, parentDir, id, now, _, hids, _, hwrites, _⟩ :=
      h.commits_of_validated hvalidated
    obtain rfl := hthread.writeBatch_iff.mp rfl
    refine .inr ⟨MkdirsOp.newDir req parentDir id now, hids, rfl, ?_, ⟨txn, hcommitted⟩,
      fun u hu => hstore.other hu, fun key => ?_⟩
    · rw [hvalidated]
      exact nofun
    · rw [hdb, hwrites, get_inode_write]

/-- An inode record was found by the process or belongs to a committed thread. -/
theorem hasInode_run (h : Run (serviceStep fb) (ServiceState.init db) trace s) :
    ∀ id, s.kv.store.db.HasInode id → db.HasInode id ∨
      ∃ t txn, id ∈ idsOf t trace ∧ s.kv.session t = some (.committed txn) := by
  refine h.invariant (P := fun trace s => ∀ id, s.kv.store.db.HasInode id → db.HasInode id ∨
    ∃ t txn, id ∈ idsOf t trace ∧ s.kv.session t = some (.committed txn))
    (fun id hid => .inl hid) ?_
  rintro trace s ⟨t, event⟩ s' reply hrun hinv hs id hid
  have hkeep : ∀ u, id ∈ idsOf u trace → id ∈ idsOf u (trace ++ [(⟨t, event⟩, reply)]) := by
    intro u hu
    rw [idsOf, List.filterMap_append]
    exact List.mem_append_left _ hu
  rw [Database.HasInode] at hid
  rcases inode_step (threadsInv_run hrun) hs with ⟨hsame, hcommitted⟩ |
    ⟨dir, hids, _, hnot, ⟨txn, hself⟩, hother, hget⟩
  · rw [hsame] at hid
    refine (hinv id hid).imp_right ?_
    rintro ⟨u, txn, hu, hcommit⟩
    exact ⟨u, txn, hkeep u hu, hcommitted u txn hcommit⟩
  · rw [hget] at hid
    split_ifs at hid with hkey
    · -- the record is the one this batch has written
      obtain rfl := InodeSerde.serKey_inj.mp hkey
      exact .inr ⟨t, txn, hkeep t (by simp [hids]), hself⟩
    · -- an older record belongs to another thread, which does not move
      refine (hinv id hid).imp_right ?_
      rintro ⟨u, txn', hu, hcommit⟩
      have hne : u ≠ t := by
        rintro rfl
        exact hnot txn' hcommit
      exact ⟨u, txn', hkeep u hu, (hother u hne).trans hcommit⟩

end Service

/-! ### Processes -/

/-- The process that serves the database. The last two fields are history: they are
only read by conditions. -/
structure LifeState where
  service : ServiceState
  inodeIDGen : IDGen
  /-- The `Update` the thread of `IDGenMgr` is in, between its load and its store. -/
  pending : Option PendingUpdate
  running : Bool
  /-- The last clock reading. -/
  clock : Int64
  /-- The database as the process found it. -/
  opened : Database
  /-- The largest timestamp with which an `Update` of the process has returned. -/
  updated : ℕ

/-- The database. -/
abbrev LifeState.db (s : LifeState) : Database := s.service.kv.store.db

/-- An empty database that no process has served yet. -/
def LifeState.init : LifeState where
  service := ServiceState.init .empty
  inodeIDGen := ⟨0, 0, 0⟩
  pending := none
  running := false
  clock := 0
  opened := .empty
  updated := 0

inductive LifeEvent
  /-- A process starts; the one before it, if any, is gone. -/
  | start
  /-- The thread of `IDGenMgr` reads the clock and calls `Update`. -/
  | sample (nowNs : Int64)
  /-- The pending `Update` stores its result and returns. -/
  | store
  | call (c : ServiceCall)

/-- `NameNodeCtx::Start` in a new process. -/
def LifeState.start (s : LifeState) : LifeState :=
  match IDGen.new 0 0 0 with
  | .error _ => { s with running := false }
  | .ok gen =>
    { s with service := ServiceState.init s.db, inodeIDGen := gen, pending := none,
             running := true, opened := s.db, updated := 0 }

/-- One iteration of the thread of `IDGenMgr`, up to the store. A failed check ends
the process. -/
def LifeState.sample (s : LifeState) (nowNs : Int64) : LifeState :=
  let update : Except Crash (UInt32 × Option PendingUpdate) := do
    let timestampSeconds ← IDGenMgr.timestampSeconds nowNs
    return (timestampSeconds, ← s.inodeIDGen.updateLoad timestampSeconds)
  match update with
  | .error _ => { s with running := false, clock := nowNs }
  | .ok (timestampSeconds, none) =>
    { s with clock := nowNs, updated := max s.updated timestampSeconds.toNat }
  | .ok (_, some pending) => { s with clock := nowNs, pending := some pending }

/-- The generator after an event, when the event agrees with it. -/
def LifeState.draw (s : LifeState) : Event → Option IDGen
  | .next result =>
    if result = s.inodeIDGen.next.1.map InodeID.mk then some s.inodeIDGen.next.2 else none
  | _ => some s.inodeIDGen

/-- The life of a database. The clock does not run backwards. -/
def lifeStep (fb : FlatBuffers) (s : LifeState) :
    LifeEvent → Option (LifeState × Option Reply)
  | .start => some (s.start, none)
  | .sample nowNs =>
    if s.running ∧ s.pending.isNone ∧ s.clock ≤ nowNs then some (s.sample nowNs, none) else none
  | .store =>
    match s.running, s.pending with
    | true, some pending =>
      some ({ s with inodeIDGen := s.inodeIDGen.updateStore pending, pending := none,
                     updated := max s.updated pending.timestampSeconds.toNat }, none)
    | _, _ => none
  | .call c =>
    match s.running, s.draw c.event, serviceStep fb s.service c with
    | true, some gen, some (service, reply) =>
      some ({ s with service := service, inodeIDGen := gen }, some reply)
    | _, _, _ => none

/-- When an id is drawn, the process has updated its generator to a timestamp that
is at least one and at least every inode id it found in the database, and the
timestamp field has room for the increment; and no id is drawn between the load and
the store of an update. -/
def caughtUp (s : LifeState) : LifeEvent → Bool
  | .call ⟨_, .next _⟩ =>
    1 ≤ s.updated ∧ s.inodeIDGen.id.toNat + 1 < 2 ^ 32 ∧
      ∀ e ∈ (s.opened.cf kInodeCFIndex).entries, ofBigEndian e.1 ≤ s.updated
  | .store => ∀ pending ∈ s.pending, pending.rawId = s.inodeIDGen.id
  | _ => true

/-! ### What a step does -/

/-- Everything a step of the life can do. -/
inductive LifeStep (fb : FlatBuffers) (s : LifeState) : LifeEvent → LifeState → Prop
  | start : LifeStep fb s .start s.start
  | sample (nowNs : Int64) : LifeStep fb s (.sample nowNs) (s.sample nowNs)
  | store {pending : PendingUpdate} (hpending : s.pending = some pending) :
      LifeStep fb s .store { s with
        inodeIDGen := s.inodeIDGen.updateStore pending
        pending := none
        updated := max s.updated pending.timestampSeconds.toNat }
  | call {c : ServiceCall} {gen : IDGen} {service : ServiceState} {reply : Reply}
      (hdraw : s.draw c.event = some gen)
      (hservice : serviceStep fb s.service c = some (service, reply)) :
      LifeStep fb s (.call c) { s with service := service, inodeIDGen := gen }

theorem lifeStep_inv {fb : FlatBuffers} {s s' : LifeState} {event : LifeEvent}
    {out : Option Reply} (h : lifeStep fb s event = some (s', out)) : LifeStep fb s event s' := by
  cases event with
  | start =>
    cases h
    exact .start
  | sample nowNs =>
    rw [lifeStep] at h
    split_ifs at h
    cases h
    exact .sample nowNs
  | store =>
    rw [lifeStep] at h
    split at h
    · rename_i pending _ hpending
      cases h
      exact .store hpending
    · cases h
  | call c =>
    rw [lifeStep] at h
    split at h
    · rename_i gen service reply _ hdraw hservice
      cases h
      exact .call hdraw hservice
    · cases h

/-- A sample leaves the service and the generator alone; an `Update` that returns at once has
found the generator at its timestamp or past it. -/
theorem LifeState.sample_cases (s : LifeState) (nowNs : Int64) :
    (∃ running pending, s.sample nowNs =
        { s with running := running, clock := nowNs, pending := pending }) ∨
      ∃ timestampSeconds, s.inodeIDGen.updateLoad timestampSeconds = .ok none ∧
        s.sample nowNs =
          { s with clock := nowNs, updated := max s.updated timestampSeconds.toNat } := by
  unfold LifeState.sample
  dsimp only
  split
  · exact .inl ⟨false, s.pending, rfl⟩
  · rename_i hupdate
    obtain ⟨_, _, hupdate⟩ := bind_ok hupdate
    obtain ⟨_, hload, heq⟩ := bind_ok hupdate
    obtain ⟨rfl, rfl⟩ := Prod.mk.inj (Except.ok.inj heq)
    exact .inr ⟨_, hload, rfl⟩
  · exact .inl ⟨s.running, _, rfl⟩

/-- What an event that draws an id says of the generator. -/
theorem LifeState.draw_next {s : LifeState} {result : Except Crash InodeID} {gen : IDGen}
    (h : s.draw (.next result) = some gen) :
    s.inodeIDGen.next.1.map InodeID.mk = result ∧ gen = s.inodeIDGen.next.2 := by
  rw [LifeState.draw] at h
  split_ifs at h with hresult
  exact ⟨hresult.symm, (Option.some.inj h).symm⟩

/-! ### What holds of a process -/

theorem handedOut_snoc (trace : ServiceTrace) (c : ServiceCall) (reply : Reply) :
    handedOut (trace ++ [(c, reply)]) = handedOut trace ++ c.event.ids := by
  simp [handedOut]

theorem toNat_le_of_hasInode {db : Database} {id : InodeID} {n : ℕ}
    (h : ∀ e ∈ (db.cf kInodeCFIndex).entries, ofBigEndian e.1 ≤ n) (hid : db.HasInode id) :
    id.val.toNat ≤ n := by
  obtain ⟨value, hvalue⟩ := Option.isSome_iff_exists.mp hid
  have hle := h _ (SortedMap.mem_entries.mpr hvalue)
  rwa [InodeSerde.serKey, ofBigEndian_bigEndian id.val.toNat_lt] at hle

/-- What holds of a process whose steps are caught up, `trace` being what its
service has done: the generator is a counter above everything drawn from it, and
what was drawn is new to the database. -/
structure ProcessInv (fb : FlatBuffers) (trace : ServiceTrace) (s : LifeState) : Prop where
  run : Run (serviceStep fb) (ServiceState.init s.opened) trace s.service
  small : s.inodeIDGen.id.toNat < 2 ^ 32
  updated_le : s.updated ≤ s.inodeIDGen.id.toNat
  root : ¬ s.opened.HasInode kRootInodeID
  drawn_le : ∀ id ∈ handedOut trace, id.val.toNat ≤ s.inodeIDGen.id.toNat
  drawn_new : ∀ id ∈ handedOut trace, id ≠ kRootInodeID ∧ ¬ s.opened.HasInode id
  nodup : (handedOut trace).Nodup

theorem processInv_init (fb : FlatBuffers) : ProcessInv fb [] LifeState.init where
  run := .nil
  small := by decide
  updated_le := by decide
  root := by decide
  drawn_le _ h := absurd h List.not_mem_nil
  drawn_new _ h := absurd h List.not_mem_nil
  nodup := List.nodup_nil

namespace ProcessInv

variable {fb : FlatBuffers} {trace : ServiceTrace} {s s' : LifeState}

/-- The inodes of the database: those the process found and those it has drawn. -/
theorem hasInode_cases (h : ProcessInv fb trace s) {id : InodeID} (hid : s.db.HasInode id) :
    s.opened.HasInode id ∨ id ∈ handedOut trace := by
  refine (hasInode_run h.run id hid).imp_right ?_
  rintro ⟨t, txn, hmem, _⟩
  exact mem_handedOut hmem

theorem root_not_hasInode (h : ProcessInv fb trace s) : ¬ s.db.HasInode kRootInodeID := by
  intro hid
  rcases h.hasInode_cases hid with hopened | hdrawn
  · exact h.root hopened
  · exact (h.drawn_new _ hdrawn).1 rfl

/-- The id the generator returns next, when it is caught up. -/
theorem next_fresh (h : ProcessInv fb trace s) {t : TxnId} {result : Except Crash InodeID}
    (hguard : caughtUp s (.call ⟨t, .next result⟩)) {id : InodeID}
    (hid : s.inodeIDGen.next.1.map InodeID.mk = .ok id) :
    id.val.toNat = s.inodeIDGen.id.toNat + 1 ∧ id ≠ kRootInodeID ∧ ¬ s.db.HasInode id ∧
      ¬ s.opened.HasInode id := by
  obtain ⟨hpos, hroom, hopened⟩ := of_decide_eq_true hguard
  obtain ⟨rawId, hnext, rfl⟩ := map_ok hid
  have hvalue : rawId.toNat = s.inodeIDGen.id.toNat + 1 := by
    rw [IDGen.eq_of_next hnext]
    exact IDGen.toNat_next h.small hroom
  have hupdated := h.updated_le
  have hnew : ¬ s.opened.HasInode ⟨rawId⟩ := by
    intro hin
    have hle : rawId.toNat ≤ s.updated := toNat_le_of_hasInode hopened hin
    omega
  refine ⟨hvalue, ?_, ?_, hnew⟩
  · intro hroot
    have hone : rawId.toNat = 1 := congrArg (fun id => id.val.toNat) hroot
    omega
  · intro hin
    rcases h.hasInode_cases hin with hin | hdrawn
    · exact hnew hin
    · have hle : rawId.toNat ≤ s.inodeIDGen.id.toNat := h.drawn_le _ hdrawn
      omega

/-- A new process on the database this one leaves behind. -/
theorem start (h : ProcessInv fb trace s) : ProcessInv fb [] s.start where
  run := .nil
  small := show (0 : UInt64).toNat < 2 ^ 32 by decide
  updated_le := Nat.zero_le _
  root := h.root_not_hasInode
  drawn_le _ h := absurd h List.not_mem_nil
  drawn_new _ h := absurd h List.not_mem_nil
  nodup := List.nodup_nil

theorem sample (h : ProcessInv fb trace s) (nowNs : Int64) :
    ProcessInv fb trace (s.sample nowNs) := by
  rcases s.sample_cases nowNs with ⟨running, pending, hsample⟩ | ⟨timestampSeconds, hload, hsample⟩
  · rw [hsample]
    exact ⟨h.run, h.small, h.updated_le, h.root, h.drawn_le, h.drawn_new, h.nodup⟩
  · have hle := IDGen.updateLoad_none hload
    rw [IDGen.toNat_timestampSeconds h.small] at hle
    rw [hsample]
    exact ⟨h.run, h.small, max_le h.updated_le hle, h.root, h.drawn_le, h.drawn_new, h.nodup⟩

theorem store (h : ProcessInv fb trace s) {pending : PendingUpdate}
    (hraw : pending.rawId = s.inodeIDGen.id) :
    ProcessInv fb trace { s with
      inodeIDGen := s.inodeIDGen.updateStore pending
      pending := none
      updated := max s.updated pending.timestampSeconds.toNat } := by
  obtain ⟨hvalue, hlater⟩ := IDGen.toNat_updateStore h.small hraw
  have hupdated := h.updated_le
  refine ⟨h.run, ?_, ?_, h.root, fun id hid => ?_, h.drawn_new, h.nodup⟩
  · rw [hvalue]
    exact pending.timestampSeconds.toNat_lt
  · rw [hvalue]
    exact max_le (by omega) le_rfl
  · rw [hvalue]
    exact (h.drawn_le id hid).trans hlater.le

/-- An event that draws no id leaves the generator alone. -/
theorem call_quiet (h : ProcessInv fb trace s) {c : ServiceCall} {service : ServiceState}
    {reply : Reply} (hstep : serviceStep fb s.service c = some (service, reply))
    (hids : c.event.ids = []) {gen : IDGen} (hsmall : gen.id.toNat < 2 ^ 32)
    (hle : s.inodeIDGen.id.toNat ≤ gen.id.toNat) :
    ProcessInv fb (trace ++ [(c, reply)]) { s with service := service, inodeIDGen := gen } := by
  have htrace : handedOut (trace ++ [(c, reply)]) = handedOut trace := by
    rw [handedOut_snoc, hids, List.append_nil]
  refine ⟨.snoc h.run hstep, hsmall, h.updated_le.trans hle, h.root, ?_, ?_, ?_⟩
  · intro id hid
    exact (h.drawn_le id (htrace ▸ hid)).trans hle
  · rw [htrace]
    exact h.drawn_new
  · rw [htrace]
    exact h.nodup

/-- A request that draws an id. -/
theorem call_next (h : ProcessInv fb trace s) {t : TxnId} {id : InodeID}
    {service : ServiceState} {reply : Reply}
    (hguard : caughtUp s (.call ⟨t, .next (.ok id)⟩))
    (hid : s.inodeIDGen.next.1.map InodeID.mk = .ok id)
    (hstep : serviceStep fb s.service ⟨t, .next (.ok id)⟩ = some (service, reply)) :
    ProcessInv fb (trace ++ [(⟨t, .next (.ok id)⟩, reply)])
      { s with service := service, inodeIDGen := s.inodeIDGen.next.2 } := by
  obtain ⟨hvalue, hroot, _, hopened⟩ := h.next_fresh hguard hid
  have hroom := (of_decide_eq_true hguard).2.1
  have hgen := IDGen.toNat_next h.small hroom
  have htrace : handedOut (trace ++ [(⟨t, .next (.ok id)⟩, reply)]) = handedOut trace ++ [id] :=
    handedOut_snoc ..
  refine ⟨.snoc h.run hstep, hgen ▸ hroom, ?_, h.root, ?_, ?_, ?_⟩
  · have hupdated := h.updated_le
    dsimp only
    omega
  · intro id' hid'
    rw [htrace] at hid'
    rcases List.mem_append.mp hid' with hold | hnew
    · have hle := h.drawn_le id' hold
      dsimp only
      omega
    · obtain rfl := List.mem_singleton.mp hnew
      dsimp only
      omega
  · intro id' hid'
    rw [htrace] at hid'
    rcases List.mem_append.mp hid' with hold | hnew
    · exact h.drawn_new id' hold
    · obtain rfl := List.mem_singleton.mp hnew
      exact ⟨hroot, hopened⟩
  · rw [htrace, ← List.concat_eq_append]
    refine h.nodup.concat fun hmem => ?_
    -- the ids before are at most the old word, the new one is above it
    have hle := h.drawn_le id hmem
    omega

/-- Every step of the life that is caught up keeps the invariant, of this process or
of the next. -/
theorem step (h : ProcessInv fb trace s) {event : LifeEvent} {out : Option Reply}
    (hguard : caughtUp s event) (hstep : lifeStep fb s event = some (s', out)) :
    ∃ trace', ProcessInv fb trace' s' := by
  cases lifeStep_inv hstep with
  | start => exact ⟨[], h.start⟩
  | sample nowNs => exact ⟨trace, h.sample nowNs⟩
  | store hpending => exact ⟨trace, h.store (of_decide_eq_true hguard _ hpending)⟩
  | @call c gen service reply hdraw hservice =>
    obtain ⟨t, event⟩ := c
    cases event with
    | next result =>
      obtain ⟨hresult, rfl⟩ := LifeState.draw_next hdraw
      cases result with
      | ok id => exact ⟨_, h.call_next hguard hresult hservice⟩
      | error crash =>
        -- the word is incremented although the checks fail
        have hroom := (of_decide_eq_true hguard).2.1
        have hgen := IDGen.toNat_next h.small hroom
        exact ⟨_, h.call_quiet hservice rfl (hgen ▸ hroom) (by omega)⟩
    | accept | takeSnapshot | call | nowNs | drawCommit | isConflictFree | writeBatch =>
      obtain rfl := Option.some.inj hdraw
      exact ⟨_, h.call_quiet hservice rfl h.small le_rfl⟩

/-- An id that a thread has drawn is not in the database before the thread commits. -/
theorem drawn_not_stored (h : ProcessInv fb trace s) {t : TxnId} {id : InodeID}
    (hmem : id ∈ idsOf t trace)
    (hnot : ∀ txn, s.service.kv.session t ≠ some (.committed txn)) : ¬ s.db.HasInode id := by
  intro hexists
  rcases hasInode_run h.run id hexists with hopened | ⟨u, txn, hu, hcommitted⟩
  · exact (h.drawn_new _ (mem_handedOut hmem)).2 hopened
  · obtain rfl := thread_unique h.nodup hmem hu
    exact hnot txn hcommitted

/-- No step changes an inode record that exists. -/
theorem inode_kept (h : ProcessInv fb trace s) {event : LifeEvent} {out : Option Reply}
    (hstep : lifeStep fb s event = some (s', out)) {id : InodeID} {value : Bytes}
    (hget : s.db.get kInodeCFIndex (InodeSerde.serKey id) = some value) :
    s'.db.get kInodeCFIndex (InodeSerde.serKey id) = some value := by
  cases lifeStep_inv hstep with
  | start => exact hget
  | sample nowNs =>
    rcases s.sample_cases nowNs with ⟨_, _, hsample⟩ | ⟨_, _, hsample⟩
    · rw [hsample]
      exact hget
    · rw [hsample]
      exact hget
  | store _ => exact hget
  | @call c gen service reply _ hservice =>
    rcases inode_step (threadsInv_run h.run) hservice with ⟨hsame, _⟩ |
      ⟨dir, hids, _, hnot, _, _, hwritten⟩
    · exact (hsame _).trans hget
    · -- the record written is under an id that has none yet
      have hnew : ¬ s.db.HasInode dir.id := h.drawn_not_stored (by simp [hids]) hnot
      have hne : InodeSerde.serKey id ≠ InodeSerde.serKey dir.id := by
        intro hkey
        obtain rfl := InodeSerde.serKey_inj.mp hkey
        exact hnew (Option.isSome_iff_exists.mpr ⟨value, hget⟩)
      dsimp only [LifeState.db]
      rw [hwritten, if_neg hne]
      exact hget

end ProcessInv

theorem processInv_run {fb : FlatBuffers} {trace : List (LifeEvent × Option Reply)}
    {s : LifeState} (h : Run (guarded (lifeStep fb) caughtUp) LifeState.init trace s) :
    ∃ trace', ProcessInv fb trace' s := by
  refine h.invariant (P := fun _ s => ∃ trace', ProcessInv fb trace' s)
    ⟨[], processInv_init fb⟩ ?_
  rintro _ s event s' out _ ⟨trace', hinv⟩ hstep
  obtain ⟨hguard, hstep⟩ := guarded_eq_some.mp hstep
  exact hinv.step hguard hstep

/-- In every life of a database whose steps are all caught up: the root has no
record, an id that is drawn is neither the root's nor that of an inode, and no step
overwrites an inode. -/
theorem fresh_of_caughtUp {fb : FlatBuffers} {trace : List (LifeEvent × Option Reply)}
    {s : LifeState} (h : Run (guarded (lifeStep fb) caughtUp) LifeState.init trace s) :
    ¬ s.db.HasInode kRootInodeID ∧
      (∀ t id s' out, guarded (lifeStep fb) caughtUp s (.call ⟨t, .next (.ok id)⟩) =
        some (s', out) → id ≠ kRootInodeID ∧ ¬ s.db.HasInode id) ∧
      ∀ event s' out, guarded (lifeStep fb) caughtUp s event = some (s', out) →
        ∀ id value, s.db.get kInodeCFIndex (InodeSerde.serKey id) = some value →
          s'.db.get kInodeCFIndex (InodeSerde.serKey id) = some value := by
  obtain ⟨trace', hinv⟩ := processInv_run h
  refine ⟨hinv.root_not_hasInode, fun t id s' out hstep => ?_,
    fun event s' out hstep id value => ?_⟩
  · obtain ⟨hguard, hstep⟩ := guarded_eq_some.mp hstep
    cases lifeStep_inv hstep with
    | call hdraw _ =>
      obtain ⟨_, hroot, hinode, _⟩ := hinv.next_fresh hguard (LifeState.draw_next hdraw).1
      exact ⟨hroot, hinode⟩
  · exact hinv.inode_kept (guarded_eq_some.mp hstep).2

/-- A `Mkdirs` under the root whose parent is found with the given number of reads, up
to the point where it draws an id. -/
def mkdirsUpToNext (name : Bytes) (reads : ℕ) : List LifeEvent :=
  [.call ⟨0, .accept (.mkdirs ⟨1, name, 0x1ED, 0, 0⟩)⟩, .call ⟨0, .takeSnapshot⟩] ++
    List.replicate reads (.call ⟨0, .call none⟩)

/-- The rest of it, with the id drawn. -/
def mkdirsFromNext (id : UInt64) : List LifeEvent :=
  [.call ⟨0, .next (.ok ⟨id⟩)⟩, .call ⟨0, .nowNs 70⟩] ++
    List.replicate 4 (.call ⟨0, .call none⟩) ++
    [.call ⟨0, .drawCommit⟩, .call ⟨0, .isConflictFree⟩, .call ⟨0, .writeBatch true⟩]

/-- A process whose first request comes after its first update, and a second one
that updates its generator past what the first has drawn. -/
def twoProcesses : List LifeEvent :=
  [.start, .sample 1742256005000000, .store] ++ mkdirsUpToNext (ascii "a") 1 ++
    mkdirsFromNext 6 ++ [.start, .sample 1742256009000000, .store] ++
    mkdirsUpToNext (ascii "b") 1

/-- Its trace. -/
def twoProcessesTrace : List (LifeEvent × Option Reply) :=
  ((replay (guarded (lifeStep .sample) caughtUp) LifeState.init twoProcesses).map
    Prod.fst).getD []

theorem fresh_twoProcesses :
    ∃ s, Run (guarded (lifeStep .sample) caughtUp) LifeState.init twoProcessesTrace s ∧
      s.db.HasInode ⟨6⟩ ∧
      (∃ s' out, guarded (lifeStep .sample) caughtUp s (.call ⟨0, .next (.ok ⟨10⟩)⟩) =
        some (s', out)) ∧ ¬ s.db.HasInode ⟨10⟩ := by
  obtain ⟨s, hrun, hstate⟩ :
      ∃ s, Run (guarded (lifeStep .sample) caughtUp) LifeState.init twoProcessesTrace s ∧
        (decide (s.db.HasInode ⟨6⟩),
          (guarded (lifeStep .sample) caughtUp s (.call ⟨0, .next (.ok ⟨10⟩)⟩)).isSome) =
        (true, true) :=
    exists_run_of_replay_eq twoProcesses _ rfl
  obtain ⟨hsix, hnext⟩ := Prod.mk.inj hstate
  obtain ⟨⟨s', out⟩, hstep⟩ := Option.isSome_iff_exists.mp hnext
  have hfresh := (fresh_of_caughtUp hrun).2.1 0 ⟨10⟩ s' out hstep
  exact ⟨s, hrun, of_decide_eq_true hsix, ⟨s', out, hstep⟩, hfresh.2⟩

/-- A process that serves a request before its first update, and a second one that
does the same. -/
def noUpdate : List LifeEvent :=
  [.start] ++ mkdirsUpToNext (ascii "a") 1 ++ mkdirsFromNext 1 ++
    [.start] ++ mkdirsUpToNext (ascii "b") 3

/-- Its trace. -/
def noUpdateTrace : List (LifeEvent × Option Reply) :=
  ((replay (lifeStep .sample) LifeState.init noUpdate).map Prod.fst).getD []

/-- The first process has drawn the id of the root and written an inode under it; the
second draws it again. -/
theorem noUpdate_not_fresh :
    ∃ s, Run (lifeStep .sample) LifeState.init noUpdateTrace s ∧
      s.db.HasInode kRootInodeID ∧
      ∃ s' out, lifeStep .sample s (.call ⟨0, .next (.ok kRootInodeID)⟩) = some (s', out) := by
  obtain ⟨s, hrun, hstate⟩ :
      ∃ s, Run (lifeStep .sample) LifeState.init noUpdateTrace s ∧
        (decide (s.db.HasInode kRootInodeID),
          (lifeStep .sample s (.call ⟨0, .next (.ok kRootInodeID)⟩)).isSome) = (true, true) :=
    exists_run_of_replay_eq noUpdate _ rfl
  obtain ⟨hroot, hnext⟩ := Prod.mk.inj hstate
  obtain ⟨⟨s', out⟩, hstep⟩ := Option.isSome_iff_exists.mp hnext
  exact ⟨s, hrun, of_decide_eq_true hroot, s', out, hstep⟩

end RocketFS
