import RocketFS.KV.Store
import RocketFS.Lib.Run

/-!
# Interleaved transactions

Any number of transactions on one store. A transaction is one session, and a step
of the machine is one atomic action of one session: drawing the start version,
taking the snapshot, one `Get`, `GetRange`, `Put` or `Del`, and the three parts of
`CommitTxn`. Which session moves next is the machine's input, so a run is an
arbitrary interleaving.
-/

namespace RocketFS

/-- The name of a transaction in a run. -/
abbrev TxnId := ℕ

/-- A call on a transaction object. -/
inductive TxnOp
  | get (fault : Option Bytes) (cf : CFIndex) (key : Bytes) (excludeFromReadConflict : Bool)
  | getRange (fault : Option Bytes) (cf : CFIndex) (startKey endKey : Bytes) (limit : ℕ)
      (excludeFromReadConflict : Bool)
  | put (cf : CFIndex) (key value : Bytes)
  | del (cf : CFIndex) (key : Bytes)
  deriving DecidableEq

/-- An atomic action of a session. -/
inductive Action
  /-- `version_.fetch_add(1)` in `StartTxn`. -/
  | drawStart
  /-- `GetSnapshot()` in the constructor of `RocksDBTxn`. -/
  | takeSnapshot
  | call (op : TxnOp)
  /-- `version_.fetch_add(1)` in `CommitTxn`. -/
  | drawCommit
  | isConflictFree
  /-- `db_->Write`, which succeeds when `written`. -/
  | writeBatch (written : Bool)
  deriving DecidableEq

/-- What an action gives back. -/
inductive Reply
  | done
  | version (version : ℤ)
  | value (result : Except Status (Option Bytes))
  | values (result : Except Status (List Bytes))
  | verdict (conflictFree : Bool)
  | threw (crash : Crash)
  deriving DecidableEq

/-- An action of one session: the input of the machine. -/
structure Call where
  txn : TxnId
  action : Action
  deriving DecidableEq

/-- How far a transaction has come. -/
inductive Session
  /-- The start version is drawn, the snapshot is not taken yet. -/
  | drawn (startVersion : ℤ)
  | live (txn : Txn)
  /-- The commit version is drawn. -/
  | committing (txn : Txn)
  /-- `IsConflictFree` returned true. -/
  | validated (txn : Txn)
  | committed (txn : Txn)
  /-- `IsConflictFree` returned false. -/
  | aborted (txn : Txn)
  | thrown (crash : Crash)

/-- The transaction object of a session, once it is there. -/
def Session.txn? : Session → Option Txn
  | .live txn | .committing txn | .validated txn | .committed txn | .aborted txn => some txn
  | .drawn _ | .thrown _ => none

/-- A store and the sessions on it. -/
structure KVState where
  store : KVStore
  session : TxnId → Option Session

namespace KVState

/-- A freshly opened store without sessions. -/
def init (db : Database) : KVState := ⟨KVStore.openDb db, fun _ => none⟩

/-- Move one session. -/
def move (s : KVState) (t : TxnId) (session : Session) : KVState :=
  { s with session := Function.update s.session t (some session) }

variable {s : KVState} {t u : TxnId} {session : Session}

@[simp] theorem move_session_self : (s.move t session).session t = some session := by
  simp [move]

theorem move_session_of_ne (h : u ≠ t) : (s.move t session).session u = s.session u := by
  simp [move, h]

end KVState

/-- A call on the transaction object of a live session. -/
def Txn.call (txn : Txn) : TxnOp → Except Crash (Txn × Reply)
  | .get fault cf key exclude =>
    (txn.get fault cf key exclude).map fun p => (p.1, .value p.2)
  | .getRange fault cf startKey endKey limit exclude =>
    (txn.getRange fault cf startKey endKey limit exclude).map fun p => (p.1, .values p.2)
  | .put cf key value => (txn.put cf key value).map fun txn => (txn, .done)
  | .del cf key => (txn.del cf key).map fun txn => (txn, .done)

/-- One step of the store: an action of the session named by the input, when the
session has come to that point. -/
def kvStep (s : KVState) (c : Call) : Option (KVState × Reply) :=
  match c.action, s.session c.txn with
  | .drawStart, none =>
    some ({ s with store := s.store.bumpVersion }.move c.txn (.drawn s.store.version),
      .version s.store.version)
  | .takeSnapshot, some (.drawn startVersion) =>
    some (s.move c.txn (.live (Txn.new s.store.db startVersion)), .done)
  | .call op, some (.live txn) =>
    match txn.call op with
    | .ok (txn', reply) => some (s.move c.txn (.live txn'), reply)
    | .error crash => some (s.move c.txn (.thrown crash), .threw crash)
  | .drawCommit, some (.live txn) =>
    some ({ s with store := s.store.bumpVersion }.move c.txn
        (.committing { txn with commitVersion := s.store.version }),
      .version s.store.version)
  | .isConflictFree, some (.committing txn) =>
    match s.store.conflictDetector.isConflictFree txn with
    | .ok true => some (s.move c.txn (.validated txn), .verdict true)
    | .ok false => some (s.move c.txn (.aborted txn), .verdict false)
    | .error crash => some (s.move c.txn (.thrown crash), .threw crash)
  | .writeBatch true, some (.validated txn) =>
    some ({ s with store := { s.store with db := s.store.db.write txn.writeSet } }.move c.txn
      (.committed txn), .done)
  | .writeBatch false, some (.validated _) =>
    -- `CHECK(db_->Write(...).ok())` throws and nothing was applied
    let crash := Crash.check "db_->Write(rocksdb::WriteOptions(), &write_batch).ok()"
    some (s.move c.txn (.thrown crash), .threw crash)
  | _, _ => none

/-! ### What a call on a transaction does -/

namespace Txn

variable {txn txn' : Txn}

/-- `Get` when RocksDB reports no error: the answer is the snapshot's, and unless the caller
excludes it, it is also what is recorded. A miss is recorded as an empty optional. -/
theorem get_none (txn : Txn) (cf : CFIndex) (key : Bytes) (exclude : Bool) :
    txn.get none cf key exclude = (do
      check (cf ≠ kInvalidCFIndex) "(cf_index) != (kInvalidCFIndex)"
      checkHandle cf
      return (if exclude = true then txn else { txn with
          readSet := txn.readSet.insert (cfKey cf key) (.optional (txn.snapshot.get cf key)) },
        .ok (txn.snapshot.get cf key))) := by
  simp only [Txn.get, addReadConflictKey]
  cases check (cf ≠ kInvalidCFIndex) "(cf_index) != (kInvalidCFIndex)" with
  | error crash => rfl
  | ok _ =>
    -- `AddReadConflictKey` repeats the checks, which have passed
    cases checkHandle cf with
    | error crash => rfl
    | ok _ => cases txn.snapshot.get cf key <;> cases exclude <;> rfl

/-- What `Get` does when it returns: an error of RocksDB changes nothing; an answer is the
snapshot's and is recorded unless the caller excludes it. -/
theorem get_cases {fault : Option Bytes} {cf : CFIndex} {key : Bytes} {exclude : Bool}
    {result : Except Status (Option Bytes)}
    (h : txn.get fault cf key exclude = .ok (txn', result)) :
    ((∃ status, result = .error status) ∧ txn' = txn) ∨
      (result = .ok (txn.snapshot.get cf key) ∧
        txn' = if exclude = true then txn else { txn with
          readSet :=
            txn.readSet.insert (cfKey cf key) (.optional (txn.snapshot.get cf key)) }) := by
  cases fault with
  | some text =>
    obtain ⟨_, _, hrest⟩ := bind_ok h
    obtain ⟨_, _, hbody⟩ := bind_ok hrest
    obtain ⟨status, _, hret⟩ := bind_ok hbody
    obtain ⟨rfl, rfl⟩ := Prod.mk.inj (Except.ok.inj hret)
    exact .inl ⟨⟨status, rfl⟩, rfl⟩
  | none =>
    rw [get_none] at h
    obtain ⟨_, _, hrest⟩ := bind_ok h
    obtain ⟨_, _, hret⟩ := bind_ok hrest
    obtain ⟨rfl, rfl⟩ := Prod.mk.inj (Except.ok.inj hret)
    exact .inr ⟨rfl, rfl⟩

/-- What `Get` can change, and what it answers. -/
theorem get_ok {fault : Option Bytes} {cf : CFIndex} {key : Bytes} {exclude : Bool}
    {result : Except Status (Option Bytes)}
    (h : txn.get fault cf key exclude = .ok (txn', result)) :
    (∃ readSet, txn' = { txn with readSet := readSet }) ∧
      (∀ value, result = .ok value → value = txn.snapshot.get cf key) := by
  rcases get_cases h with ⟨⟨status, rfl⟩, rfl⟩ | ⟨rfl, rfl⟩
  · exact ⟨⟨txn'.readSet, rfl⟩, fun value hvalue => by cases hvalue⟩
  · refine ⟨?_, fun value hvalue => (Except.ok.inj hvalue).symm⟩
    cases exclude with
    | true => exact ⟨txn.readSet, rfl⟩
    | false => exact ⟨_, rfl⟩

/-- What `GetRange` does when it returns: nothing changes, and an answer is the
snapshot's. -/
theorem getRange_ok {fault : Option Bytes} {cf : CFIndex} {startKey endKey : Bytes} {limit : ℕ}
    {exclude : Bool} {result : Except Status (List Bytes)}
    (h : txn.getRange fault cf startKey endKey limit exclude = .ok (txn', result)) :
    txn' = txn ∧
      (∀ values, result = .ok values →
        values = txn.snapshot.range cf startKey endKey limit) := by
  obtain ⟨_, _, hrest⟩ := bind_ok h
  obtain ⟨_, _, hbody⟩ := bind_ok hrest
  rw [getRangeLoop_seek] at hbody
  cases fault with
  | some text =>
    obtain ⟨status, _, hret⟩ := bind_ok hbody
    obtain ⟨rfl, rfl⟩ := Prod.mk.inj (Except.ok.inj hret)
    exact ⟨rfl, fun value hvalue => nomatch hvalue⟩
  | none =>
    -- `AddReadConflictKeyRange` has an empty body, so nothing is recorded either way
    have hresult : (txn, Except.ok (txn.snapshot.range cf startKey endKey limit)) =
        (txn', result) := by
      cases exclude <;> exact Except.ok.inj hbody
    obtain ⟨rfl, rfl⟩ := Prod.mk.inj hresult
    exact ⟨rfl, fun values hvalues => (Except.ok.inj hvalues).symm⟩

theorem put_ok {cf : CFIndex} {key value : Bytes} (h : txn.put cf key value = .ok txn') :
    txn' = { txn with writeSet := txn.writeSet.insert (cfKey cf key) (some value) } := by
  obtain ⟨_, _, hbody⟩ := bind_ok h
  exact (Except.ok.inj hbody).symm

theorem del_ok {cf : CFIndex} {key : Bytes} (h : txn.del cf key = .ok txn') :
    txn' = { txn with writeSet := txn.writeSet.insert (cfKey cf key) none } := by
  obtain ⟨_, _, hbody⟩ := bind_ok h
  exact (Except.ok.inj hbody).symm

end Txn

/-- Everything a call can do to the transaction object. -/
inductive CallStep (txn : Txn) : TxnOp → Txn → Reply → Prop
  | get {fault : Option Bytes} {cf : CFIndex} {key : Bytes} {exclude : Bool}
      (readSet : SortedMap CFKey ReadConstraint) (result : Except Status (Option Bytes))
      (h : ∀ value, result = .ok value → value = txn.snapshot.get cf key) :
      CallStep txn (.get fault cf key exclude) { txn with readSet := readSet } (.value result)
  | getRange {fault : Option Bytes} {cf : CFIndex} {startKey endKey : Bytes} {limit : ℕ}
      {exclude : Bool} (result : Except Status (List Bytes))
      (h : ∀ values, result = .ok values →
        values = txn.snapshot.range cf startKey endKey limit) :
      CallStep txn (.getRange fault cf startKey endKey limit exclude) txn (.values result)
  | put (cf : CFIndex) (key value : Bytes) :
      CallStep txn (.put cf key value)
        { txn with writeSet := txn.writeSet.insert (cfKey cf key) (some value) } .done
  | del (cf : CFIndex) (key : Bytes) :
      CallStep txn (.del cf key)
        { txn with writeSet := txn.writeSet.insert (cfKey cf key) none } .done

theorem Txn.call_inv {txn txn' : Txn} {op : TxnOp} {reply : Reply}
    (h : txn.call op = .ok (txn', reply)) : CallStep txn op txn' reply := by
  cases op with
  | get fault cf key exclude =>
    obtain ⟨⟨t, result⟩, hget, hpair⟩ := map_ok h
    obtain ⟨rfl, rfl⟩ := Prod.mk.inj hpair
    obtain ⟨⟨readSet, rfl⟩, hanswer⟩ := get_ok hget
    exact .get readSet result hanswer
  | getRange fault cf startKey endKey limit exclude =>
    obtain ⟨⟨t, result⟩, hget, hpair⟩ := map_ok h
    obtain ⟨rfl, rfl⟩ := Prod.mk.inj hpair
    obtain ⟨rfl, hanswer⟩ := getRange_ok hget
    exact .getRange result hanswer
  | put cf key value =>
    obtain ⟨t, hput, hpair⟩ := map_ok h
    obtain ⟨rfl, rfl⟩ := Prod.mk.inj hpair
    rw [put_ok hput]
    exact .put cf key value
  | del cf key =>
    obtain ⟨t, hdel, hpair⟩ := map_ok h
    obtain ⟨rfl, rfl⟩ := Prod.mk.inj hpair
    rw [del_ok hdel]
    exact .del cf key

theorem CallStep.snapshot {txn txn' : Txn} {op : TxnOp} {reply : Reply}
    (h : CallStep txn op txn' reply) : txn'.snapshot = txn.snapshot := by
  cases h <;> rfl

/-! ### What a step does -/

/-- Everything a step can do to the session that takes it and to the store. -/
inductive SessionStep (store : KVStore) :
    Option Session → Action → Reply → Session → KVStore → Prop
  | drawStart :
      SessionStep store none .drawStart (.version store.version) (.drawn store.version)
        store.bumpVersion
  | takeSnapshot (startVersion : ℤ) :
      SessionStep store (some (.drawn startVersion)) .takeSnapshot .done
        (.live (Txn.new store.db startVersion)) store
  | call {txn txn' : Txn} {op : TxnOp} {reply : Reply} (h : CallStep txn op txn' reply) :
      SessionStep store (some (.live txn)) (.call op) reply (.live txn') store
  | callThrew {txn : Txn} {op : TxnOp} (crash : Crash) :
      SessionStep store (some (.live txn)) (.call op) (.threw crash) (.thrown crash) store
  | drawCommit (txn : Txn) :
      SessionStep store (some (.live txn)) .drawCommit (.version store.version)
        (.committing { txn with commitVersion := store.version }) store.bumpVersion
  | conflictFree (txn : Txn) (h : store.conflictDetector.isConflictFree txn = .ok true) :
      SessionStep store (some (.committing txn)) .isConflictFree (.verdict true)
        (.validated txn) store
  | conflict (txn : Txn) (h : store.conflictDetector.isConflictFree txn = .ok false) :
      SessionStep store (some (.committing txn)) .isConflictFree (.verdict false)
        (.aborted txn) store
  | checkThrew (txn : Txn) (crash : Crash) :
      SessionStep store (some (.committing txn)) .isConflictFree (.threw crash)
        (.thrown crash) store
  | write (txn : Txn) :
      SessionStep store (some (.validated txn)) (.writeBatch true) .done (.committed txn)
        { store with db := store.db.write txn.writeSet }
  | writeThrew (txn : Txn) (crash : Crash) :
      SessionStep store (some (.validated txn)) (.writeBatch false) (.threw crash)
        (.thrown crash) store

private theorem kvStep_move {s s' : KVState} {c : Call} {reply : Reply}
    (h : kvStep s c = some (s', reply)) :
    ∃ session', SessionStep s.store (s.session c.txn) c.action reply session' s'.store ∧
      s' = KVState.move ⟨s'.store, s.session⟩ c.txn session' := by
  obtain ⟨t, action⟩ := c
  simp only [kvStep] at h
  -- one case for each branch of `kvStep`, in its order
  split at h
  · rename_i hsession
    obtain ⟨rfl, rfl⟩ := Prod.mk.inj (Option.some.inj h)
    exact ⟨_, hsession ▸ .drawStart, rfl⟩
  · rename_i hsession
    obtain ⟨rfl, rfl⟩ := Prod.mk.inj (Option.some.inj h)
    exact ⟨_, hsession ▸ .takeSnapshot _, rfl⟩
  · rename_i hsession
    split at h
    · rename_i hcall
      obtain ⟨rfl, rfl⟩ := Prod.mk.inj (Option.some.inj h)
      exact ⟨_, hsession ▸ .call (Txn.call_inv hcall), rfl⟩
    · obtain ⟨rfl, rfl⟩ := Prod.mk.inj (Option.some.inj h)
      exact ⟨_, hsession ▸ .callThrew _, rfl⟩
  · rename_i hsession
    obtain ⟨rfl, rfl⟩ := Prod.mk.inj (Option.some.inj h)
    exact ⟨_, hsession ▸ .drawCommit _, rfl⟩
  · rename_i hsession
    split at h
    · rename_i hfree
      obtain ⟨rfl, rfl⟩ := Prod.mk.inj (Option.some.inj h)
      exact ⟨_, hsession ▸ .conflictFree _ hfree, rfl⟩
    · rename_i hconflict
      obtain ⟨rfl, rfl⟩ := Prod.mk.inj (Option.some.inj h)
      exact ⟨_, hsession ▸ .conflict _ hconflict, rfl⟩
    · obtain ⟨rfl, rfl⟩ := Prod.mk.inj (Option.some.inj h)
      exact ⟨_, hsession ▸ .checkThrew _ _, rfl⟩
  · rename_i hsession
    obtain ⟨rfl, rfl⟩ := Prod.mk.inj (Option.some.inj h)
    exact ⟨_, hsession ▸ .write _, rfl⟩
  · rename_i hsession
    obtain ⟨rfl, rfl⟩ := Prod.mk.inj (Option.some.inj h)
    exact ⟨_, hsession ▸ .writeThrew _ _, rfl⟩
  · cases h

/-- A step moves one session, in one of the ways above, and leaves the others where
they are. -/
theorem kvStep_inv {s s' : KVState} {t : TxnId} {action : Action} {reply : Reply}
    (h : kvStep s ⟨t, action⟩ = some (s', reply)) :
    ∃ session', SessionStep s.store (s.session t) action reply session' s'.store ∧
      s'.session t = some session' ∧ ∀ u, u ≠ t → s'.session u = s.session u := by
  obtain ⟨session', hstep, hmove⟩ := kvStep_move h
  refine ⟨session', hstep, ?_, fun u hne => ?_⟩
  · rw [hmove, KVState.move_session_self]
  · rw [hmove, KVState.move_session_of_ne hne]

/-- A snapshot is the database at the moment it is taken, and does not change. -/
theorem SessionStep.snapshot_cases {store store' : KVStore} {session : Option Session}
    {session' : Session} {action : Action} {reply : Reply} {txn' : Txn}
    (h : SessionStep store session action reply session' store')
    (htxn : session'.txn? = some txn') :
    (action = .takeSnapshot ∧ txn'.snapshot = store.db) ∨
      ∃ session₀ txn, session = some session₀ ∧ session₀.txn? = some txn ∧
        txn'.snapshot = txn.snapshot := by
  cases h with
  | drawStart => cases htxn
  | takeSnapshot startVersion =>
    obtain rfl := Option.some.inj htxn
    exact .inl ⟨rfl, rfl⟩
  | call hcall =>
    obtain rfl := Option.some.inj htxn
    exact .inr ⟨_, _, rfl, rfl, hcall.snapshot⟩
  | drawCommit txn =>
    obtain rfl := Option.some.inj htxn
    exact .inr ⟨_, _, rfl, rfl, rfl⟩
  | conflictFree txn _ | conflict txn _ | write txn =>
    obtain rfl := Option.some.inj htxn
    exact .inr ⟨_, _, rfl, rfl, rfl⟩
  | callThrew crash | checkThrew txn crash | writeThrew txn crash => cases htxn

/-- A step leaves the database alone, or is the write of a batch. -/
theorem SessionStep.db_cases {store store' : KVStore} {session : Option Session}
    {session' : Session} {action : Action} {reply : Reply}
    (h : SessionStep store session action reply session' store') :
    (action ≠ .writeBatch true ∧ store'.db = store.db ∧ ∀ txn, session' ≠ .committed txn) ∨
      ∃ txn, session = some (.validated txn) ∧ action = .writeBatch true ∧
        session' = .committed txn ∧ store'.db = store.db.write txn.writeSet := by
  cases h
  case write txn => exact .inr ⟨txn, rfl, rfl, rfl, rfl⟩
  all_goals exact .inl ⟨by simp, rfl, by simp⟩

end RocketFS
