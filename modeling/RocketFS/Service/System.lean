import RocketFS.Lib.Run
import RocketFS.Service.Operations

/-!
# Requests that interleave

Any number of requests on one namenode. A request is one thread with one
transaction; a step of the machine is one atomic action of one thread: drawing the
start version, taking the snapshot, one call of the handler, or one of the three
parts of the commit. Ids, clock readings and RocksDB faults are inputs, so a run is
an arbitrary interleaving in an arbitrary environment.

Every step is a step of the store or none at all (`exists_kvRun`), so what holds of
every run of the store holds of every run of the namenode.
-/

namespace RocketFS

/-- How far the handling of a request has come. -/
inductive Thread
  /-- The handler context is being built: its transaction has a start version. -/
  | accepted (req : Request)
  /-- The handler has this much left to do. -/
  | running (req : Request) (rest : HandlerM Response)

/-- The request a thread handles. -/
def Thread.request : Thread → Request
  | .accepted req => req
  | .running req _ => req

/-- A namenode and the requests it handles. -/
structure ServiceState where
  kv : KVState
  thread : TxnId → Option Thread

/-- A freshly started namenode. -/
def ServiceState.init (db : Database) : ServiceState := ⟨KVState.init db, fun _ => none⟩

/-- What a thread does next, with what the environment gives to it. -/
inductive Event
  | accept (req : Request)
  | takeSnapshot
  /-- The pending call on the transaction; `fault` is the error RocksDB reports. -/
  | call (fault : Option Bytes)
  /-- `Next` returns an id or fails a check. -/
  | next (id : Except Crash InodeID)
  | nowNs (now : Int64)
  | drawCommit
  | isConflictFree
  | writeBatch (written : Bool)
  deriving DecidableEq

/-- An event of one thread: the input of the machine. -/
structure ServiceCall where
  thread : TxnId
  event : Event
  deriving DecidableEq

/-- The action of the store by which an event serves the pending call. -/
def Operation.action : Operation → Event → Option Action
  | .read (.get cf key), .call fault => some (.call (.get fault cf key false))
  | .read (.getRange cf startKey endKey limit), .call fault =>
    some (.call (.getRange fault cf startKey endKey limit false))
  | .put cf key value, .call _ => some (.call (.put cf key value))
  | .del cf key, .call _ => some (.call (.del cf key))
  | .commitTxn, .drawCommit => some .drawCommit
  | .commitTxn, .isConflictFree => some .isConflictFree
  | .commitTxn, .writeBatch written => some (.writeBatch written)
  | _, _ => none

/-- How a handler goes on when the store has replied. A commit stays pending until
its batch is written or a conflict is found. -/
def Operation.resume {α : Type} : (op : Operation) → (op.Answer → HandlerM α) → Reply → HandlerM α
  | _, _, .threw crash => .done (.error crash)
  | .read (.get _ _), k, .value result => k result
  | .read (.getRange _ _ _ _), k, .values result => k result
  | .put _ _ _, k, .done => k ()
  | .del _ _, k, .done => k ()
  | .commitTxn, k, .done => k (.ok ())
  | .commitTxn, k, .verdict false =>
    match Status.conflictError [] none ⟨"src/namenode/table/kv/rocksdb_kv_store.cc", 257⟩ with
    | .ok status => k (.error status)
    | .error crash => .done (.error crash)
  | op, k, _ => .call op k

/-- Let a thread move, together with an action of its transaction. -/
def ServiceState.act (s : ServiceState) (t : TxnId) (action : Action) (thread : Reply → Thread) :
    Option (ServiceState × Reply) :=
  match kvStep s.kv ⟨t, action⟩ with
  | none => none
  | some (kv, reply) =>
    some (⟨kv, Function.update s.thread t (some (thread reply))⟩, reply)

/-- One step of the namenode: an event of the thread named by the input, when the
thread has come to that point. -/
def serviceStep (fb : FlatBuffers) (s : ServiceState) (c : ServiceCall) :
    Option (ServiceState × Reply) :=
  match s.thread c.thread with
  | none =>
    match c.event with
    | .accept req => s.act c.thread .drawStart fun _ => .accepted req
    | _ => none
  | some (.accepted req) =>
    match c.event with
    | .takeSnapshot => s.act c.thread .takeSnapshot fun _ => .running req (req.run fb)
    | _ => none
  | some (.running _ (.done _)) => none
  | some (.running req (.call op next)) =>
    match op, next, c.event with
    | .next, next, .next id =>
      let rest := match id with
        | .ok id => next id
        | .error crash => .done (.error crash)
      some ({ s with thread := Function.update s.thread c.thread (some (.running req rest)) },
        .done)
    | .nowNs, next, .nowNs now =>
      some ({ s with
        thread := Function.update s.thread c.thread (some (.running req (next now))) }, .done)
    | op, next, event =>
      match op.action event with
      | none => none
      | some action => s.act c.thread action fun reply => .running req (op.resume next reply)

/-! ### What a step does -/

/-- Everything a step can do to the thread that takes it, with the action its
transaction takes at the same time, if any. -/
inductive ThreadStep (fb : FlatBuffers) :
    Option Thread → Event → Option Action → Reply → Thread → Prop
  | accept (req : Request) (reply : Reply) :
      ThreadStep fb none (.accept req) (some .drawStart) reply (.accepted req)
  | takeSnapshot (req : Request) (reply : Reply) :
      ThreadStep fb (some (.accepted req)) .takeSnapshot (some .takeSnapshot) reply
        (.running req (req.run fb))
  | next (req : Request) (k : InodeID → HandlerM Response) (id : InodeID) :
      ThreadStep fb (some (.running req (.call .next k))) (.next (.ok id)) none .done
        (.running req (k id))
  | nextThrew (req : Request) (k : InodeID → HandlerM Response) (crash : Crash) :
      ThreadStep fb (some (.running req (.call .next k))) (.next (.error crash)) none .done
        (.running req (.done (.error crash)))
  | nowNs (req : Request) (k : Int64 → HandlerM Response) (now : Int64) :
      ThreadStep fb (some (.running req (.call .nowNs k))) (.nowNs now) none .done
        (.running req (k now))
  | call (req : Request) {op : Operation} (k : op.Answer → HandlerM Response) {event : Event}
      {action : Action} (h : op.action event = some action) (reply : Reply) :
      ThreadStep fb (some (.running req (.call op k))) event (some action) reply
        (.running req (op.resume k reply))

/-- What a step does to the store: the action of the thread's transaction, if there
is one. -/
def StoreStep (kv : KVState) (t : TxnId) : Option Action → Reply → KVState → Prop
  | none, _, kv' => kv' = kv
  | some action, reply, kv' => kvStep kv ⟨t, action⟩ = some (kv', reply)

theorem act_inv {s s' : ServiceState} {t : TxnId} {action : Action} {thread : Reply → Thread}
    {reply : Reply} (h : s.act t action thread = some (s', reply)) :
    s'.thread = Function.update s.thread t (some (thread reply)) ∧
      StoreStep s.kv t (some action) reply s'.kv := by
  rw [ServiceState.act] at h
  split at h
  · cases h
  · rename_i kv reply' hkv
    obtain ⟨rfl, rfl⟩ := Prod.mk.inj (Option.some.inj h)
    exact ⟨rfl, hkv⟩

/-- A step moves one thread, in one of the ways above, and its transaction. -/
theorem serviceStep_inv {fb : FlatBuffers} {s s' : ServiceState} {t : TxnId} {event : Event}
    {reply : Reply} (h : serviceStep fb s ⟨t, event⟩ = some (s', reply)) :
    ∃ action thread', ThreadStep fb (s.thread t) event action reply thread' ∧
      StoreStep s.kv t action reply s'.kv ∧ s'.thread t = some thread' ∧
      ∀ u, u ≠ t → s'.thread u = s.thread u := by
  have hupdate : ∀ {thread' : Thread},
      s'.thread = Function.update s.thread t (some thread') →
        s'.thread t = some thread' ∧ ∀ u, u ≠ t → s'.thread u = s.thread u := by
    intro thread' hthread
    rw [hthread]
    exact ⟨Function.update_self .., fun u hne => Function.update_of_ne hne ..⟩
  rw [serviceStep] at h
  split at h
  · rename_i hthread
    split at h
    · rename_i req hevent
      obtain rfl : event = .accept req := hevent
      obtain ⟨hmove, hstore⟩ := act_inv h
      exact ⟨_, _, hthread ▸ .accept _ _, hstore, hupdate hmove⟩
    · cases h
  · rename_i hthread
    split at h
    · rename_i hevent
      obtain rfl : event = .takeSnapshot := hevent
      obtain ⟨hmove, hstore⟩ := act_inv h
      exact ⟨_, _, hthread ▸ .takeSnapshot _ _, hstore, hupdate hmove⟩
    · cases h
  · cases h
  · rename_i hthread
    split at h
    · rename_i id hevent
      obtain rfl : event = .next id := hevent
      obtain ⟨rfl, rfl⟩ := Prod.mk.inj (Option.some.inj h)
      cases id with
      | ok id => exact ⟨none, _, hthread ▸ .next _ _ _, rfl, hupdate rfl⟩
      | error crash => exact ⟨none, _, hthread ▸ .nextThrew _ _ _, rfl, hupdate rfl⟩
    · rename_i now hevent
      obtain rfl : event = .nowNs now := hevent
      obtain ⟨rfl, rfl⟩ := Prod.mk.inj (Option.some.inj h)
      exact ⟨none, _, hthread ▸ .nowNs _ _ _, rfl, hupdate rfl⟩
    · split at h
      · cases h
      · rename_i haction
        obtain ⟨hmove, hstore⟩ := act_inv h
        exact ⟨_, _, hthread ▸ .call _ _ haction _, hstore, hupdate hmove⟩

/-- The store of a namenode runs as a store. -/
theorem exists_kvRun {fb : FlatBuffers} {db : Database} {trace : List (ServiceCall × Reply)}
    {s : ServiceState} (h : Run (serviceStep fb) (ServiceState.init db) trace s) :
    ∃ kvTrace, Run kvStep (KVState.init db) kvTrace s.kv := by
  induction h with
  | nil => exact ⟨[], .nil⟩
  | @snoc _ s s' c reply _ hs ih =>
    obtain ⟨kvTrace, hrun⟩ := ih
    obtain ⟨t, event⟩ := c
    obtain ⟨action, _, _, hstore, _⟩ := serviceStep_inv hs
    cases action with
    | none => exact ⟨kvTrace, (hstore : s'.kv = s.kv) ▸ hrun⟩
    | some action => exact ⟨_, .snoc hrun hstore⟩

end RocketFS
