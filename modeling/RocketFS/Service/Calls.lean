import RocketFS.KV.Sessions
import RocketFS.Lib.Program
import RocketFS.Table.Records

/-!
# What request handlers call

The handlers are coroutines that wait on the transaction they were given, draw ids
and clock readings from the process, and finally commit. Here they are programs
over these calls, so that one definition of a handler serves both a request that
runs alone (`runRequest`) and requests that interleave.

Handlers that only read form a type of their own (`ReadM`). What they return is a
function of the database they read (`ask`), and this is what they return in a
transaction of their own, which leaves the database as it was (`runRequest_lift`).
-/

namespace RocketFS

/-- A read of the transaction, with `exclude_from_read_conflict` left at its
default. -/
inductive ReadOp
  | get (cf : CFIndex) (key : Bytes)
  | getRange (cf : CFIndex) (startKey endKey : Bytes) (limit : ℕ)

/-- What a read returns. -/
abbrev ReadOp.Answer : ReadOp → Type
  | .get _ _ => Except Status (Option Bytes)
  | .getRange _ _ _ _ => Except Status (List Bytes)

/-- A call of a handler. -/
inductive Operation
  | read (op : ReadOp)
  | put (cf : CFIndex) (key value : Bytes)
  | del (cf : CFIndex) (key : Bytes)
  /-- `GetInodeIDGen().Next()`. -/
  | next
  /-- `GetTimeUtil()->NowNs()`. -/
  | nowNs
  | commitTxn

abbrev Operation.Answer : Operation → Type
  | .read op => op.Answer
  | .put _ _ _ => Unit
  | .del _ _ => Unit
  | .next => InodeID
  | .nowNs => Int64
  | .commitTxn => Except Status Unit

/-- Handlers that only read. -/
abbrev ReadM := Program ReadOp ReadOp.Answer Crash

/-- Handlers. -/
abbrev HandlerM := Program Operation Operation.Answer Crash

/-- A reading handler as a handler. -/
def ReadM.lift {α : Type} : ReadM α → HandlerM α
  | .done result => .done result
  | .call op next => .call (.read op) fun x => ReadM.lift (next x)

namespace ReadM

def get (cf : CFIndex) (key : Bytes) : ReadM (Except Status (Option Bytes)) :=
  Program.request (ReadOp.get cf key)

def getRange (cf : CFIndex) (startKey endKey : Bytes) (limit : ℕ) :
    ReadM (Except Status (List Bytes)) :=
  Program.request (ReadOp.getRange cf startKey endKey limit)

end ReadM

namespace HandlerM

def put (cf : CFIndex) (key value : Bytes) : HandlerM Unit :=
  Program.request (Operation.put cf key value)

def del (cf : CFIndex) (key : Bytes) : HandlerM Unit :=
  Program.request (Operation.del cf key)

def next : HandlerM InodeID := Program.request Operation.next

def nowNs : HandlerM Int64 := Program.request Operation.nowNs

def commitTxn : HandlerM (Except Status Unit) := Program.request Operation.commitTxn

end HandlerM

/-! ### Reading a database -/

/-- What a read returns on a database when RocksDB reports no error. -/
def answerOn (db : Database) : (op : ReadOp) → Except Crash op.Answer
  | .get cf key => do
    check (cf ≠ kInvalidCFIndex) "(cf_index) != (kInvalidCFIndex)"
    Txn.checkHandle cf
    return .ok (db.get cf key)
  | .getRange cf startKey endKey limit => do
    check (cf ≠ kInvalidCFIndex) "(cf_index) != (kInvalidCFIndex)"
    Txn.checkHandle cf
    return .ok (db.range cf startKey endKey limit)

/-- What a reading handler returns on a database. -/
def ask {α : Type} (db : Database) (p : ReadM α) : Except Crash α := p.eval (answerOn db)

/-- The column families the store opens. -/
def CFIndex.Opened (cf : CFIndex) : Prop := 0 ≤ cf.index ∧ cf.index < cfHandlesSize

instance (cf : CFIndex) : Decidable cf.Opened := inferInstanceAs (Decidable (_ ∧ _))

theorem CFIndex.Opened.ne_invalid {cf : CFIndex} (h : cf.Opened) : cf ≠ kInvalidCFIndex := by
  rintro rfl
  exact absurd h (by decide)

theorem Txn.checkHandle_of_opened {cf : CFIndex} (h : cf.Opened) :
    Txn.checkHandle cf = .ok () := by
  simp [checkHandle, h.1, h.2]

section Ask

variable {α β : Type} {db : Database}

theorem ask_bind (p : ReadM α) (f : α → ReadM β) :
    ask db (p >>= f) = ask db p >>= fun a => ask db (f a) :=
  Program.eval_bind p f

@[simp] theorem ask_liftM (result : Except Crash α) :
    ask db (liftM result : ReadM α) = result := rfl

theorem ask_get {cf : CFIndex} (h : cf.Opened) (key : Bytes) :
    ask db (ReadM.get cf key) = .ok (.ok (db.get cf key)) := by
  simp only [ask, ReadM.get, Program.request]
  rw [Program.eval_call_ok (x := .ok (db.get cf key))]
  · rfl
  · simp [answerOn, h.ne_invalid, Txn.checkHandle_of_opened h]

theorem ask_getRange {cf : CFIndex} (h : cf.Opened) (startKey endKey : Bytes) (limit : ℕ) :
    ask db (ReadM.getRange cf startKey endKey limit) =
      .ok (.ok (db.range cf startKey endKey limit)) := by
  simp only [ask, ReadM.getRange, Program.request]
  rw [Program.eval_call_ok (x := .ok (db.range cf startKey endKey limit))]
  · rfl
  · simp [answerOn, h.ne_invalid, Txn.checkHandle_of_opened h]

end Ask

/-! ### A request that runs alone -/

/-- What the process gives to a request: the id and the clock reading, and how
RocksDB fails at each read, if it does. -/
structure Env where
  id : Except Crash InodeID
  nowNs : Int64
  fault : ReadOp → Option Bytes

/-- A store and the transaction of a request on it. -/
structure RequestState (Store : Type) where
  store : Store
  txn : Txn

/-- Answer a read of a transaction. -/
def Txn.answer (txn : Txn) (fault : Option Bytes) : (op : ReadOp) →
    Except Crash (Txn × op.Answer)
  | .get cf key => txn.get fault cf key false
  | .getRange cf startKey endKey limit => txn.getRange fault cf startKey endKey limit false

/-- Answer a call, on a store with this `CommitTxn`. -/
def handleWith {Store : Type}
    (commitTxn : Store → Txn → Except Crash (Except Status Unit) × Store) (env : Env)
    (s : RequestState Store) : (op : Operation) → Except Crash op.Answer × RequestState Store
  | .read op =>
    match s.txn.answer (env.fault op) op with
    | .ok (txn, x) => (.ok x, { s with txn := txn })
    | .error crash => (.error crash, s)
  | .put cf key value =>
    match s.txn.put cf key value with
    | .ok txn => (.ok (), { s with txn := txn })
    | .error crash => (.error crash, s)
  | .del cf key =>
    match s.txn.del cf key with
    | .ok txn => (.ok (), { s with txn := txn })
    | .error crash => (.error crash, s)
  | .next => (env.id, s)
  | .nowNs => (.ok env.nowNs, s)
  | .commitTxn =>
    let (result, store) := commitTxn s.store s.txn
    (result, { s with store := store })

/-- The store and the transaction of a request of the namenode. -/
abbrev HandlerState := RequestState KVStore

/-- Answer a call of a handler of the namenode. -/
abbrev handle (env : Env) :
    HandlerState → (op : Operation) → Except Crash op.Answer × HandlerState :=
  handleWith KVStore.commitTxn env

/-- A request whose transaction `StartTxn` has just made. -/
def HandlerState.start (store : KVStore) : HandlerState :=
  let (txn, store) := store.startTxn
  ⟨store, txn⟩

/-- Run a handler in a transaction of its own. -/
def runRequest {α : Type} (env : Env) (p : HandlerM α) (store : KVStore) :
    Except Crash α × KVStore :=
  let (result, s) := p.exec (handle env) (HandlerState.start store)
  (result, s.store)

/-! ### Reading handlers in a transaction -/

section Lift

variable {α : Type} {env : Env}

/-- Without a fault a transaction answers as its snapshot does, and at most records
the read. -/
theorem Txn.answer_none (txn : Txn) (op : ReadOp) :
    ∃ readSet, txn.answer none op =
      (answerOn txn.snapshot op).map fun x => ({ txn with readSet := readSet }, x) := by
  cases op with
  | get cf key =>
    simp only [answer, Txn.get_none, answerOn]
    -- a failed check is the same on both sides
    cases check (cf ≠ kInvalidCFIndex) "(cf_index) != (kInvalidCFIndex)" with
    | error crash => exact ⟨.empty, rfl⟩
    | ok _ =>
      cases checkHandle cf with
      | error crash => exact ⟨.empty, rfl⟩
      | ok _ => exact ⟨_, rfl⟩
  | getRange cf startKey endKey limit =>
    simp only [answer, Txn.getRange, answerOn, getRangeLoop_seek]
    cases check (cf ≠ kInvalidCFIndex) "(cf_index) != (kInvalidCFIndex)" with
    | error crash => exact ⟨.empty, rfl⟩
    | ok _ =>
      cases checkHandle cf with
      | error crash => exact ⟨.empty, rfl⟩
      | ok _ => exact ⟨txn.readSet, rfl⟩

theorem exec_lift (henv : ∀ op, env.fault op = none) (p : ReadM α) (s : HandlerState) :
    ∃ readSet, p.lift.exec (handle env) s =
      (ask s.txn.snapshot p, { s with txn := { s.txn with readSet := readSet } }) := by
  induction p generalizing s with
  | done result => exact ⟨s.txn.readSet, rfl⟩
  | call op next ih =>
    obtain ⟨readSet, hanswer⟩ := s.txn.answer_none op
    cases hop : answerOn s.txn.snapshot op with
    | error crash =>
      rw [hop] at hanswer
      refine ⟨s.txn.readSet, ?_⟩
      simp only [ReadM.lift, Program.exec, handleWith, henv, hanswer, Except.map, ask,
        Program.eval, hop]
    | ok x =>
      rw [hop] at hanswer
      obtain ⟨readSet', hnext⟩ := ih x { s with txn := { s.txn with readSet := readSet } }
      refine ⟨readSet', ?_⟩
      simp only [ReadM.lift, Program.exec, handleWith, henv, hanswer, Except.map, ask,
        Program.eval, hop]
      exact hnext

/-- A reading request returns what its handler says of the database, and leaves the
database as it was. -/
theorem runRequest_lift (henv : ∀ op, env.fault op = none) (p : ReadM α) (store : KVStore) :
    runRequest env p.lift store = (ask store.db p, store.bumpVersion) := by
  obtain ⟨readSet, hexec⟩ := exec_lift henv p (HandlerState.start store)
  rw [runRequest, hexec]
  rfl

end Lift

end RocketFS
