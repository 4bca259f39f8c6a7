import RocketFS.Common.Status
import RocketFS.KV.Database

/-!
# Transactions, the conflict detector and the store

`RocksDBTxn`, `RocksDBConflictDetector` and `RocksDBKVStore`. A transaction reads
from the snapshot it was given, records the keys it read, and buffers its writes;
the detector compares the keys a transaction read with the writes of the
transactions it remembers.

RocksDB itself enters through the snapshot, which is a copy of the database, and
through `fault`: `some text` stands for a status that is neither `OK` nor
`NotFound` and whose `ToString()` is `text`.
-/

namespace RocketFS

/-- `std::variant<std::monostate, std::optional<std::string>>`, what `read_set_`
stores about a key. -/
inductive ReadConstraint
  | monostate
  | optional (value : Option Bytes)
  deriving DecidableEq, Repr

/-- `RocksDBTxn`. -/
structure Txn where
  snapshot : Database
  startVersion : ℤ
  commitVersion : ℤ
  readSet : SortedMap CFKey ReadConstraint
  writeSet : WriteSet

namespace Txn

/-- The constructor of `RocksDBTxn`, on the database it takes its snapshot of. -/
def new (db : Database) (startVersion : ℤ) : Txn where
  snapshot := db
  startVersion := startVersion
  commitVersion := -1
  readSet := .empty
  writeSet := .empty

/-- The two checks every operation makes on its column family. -/
def checkHandle (cf : CFIndex) : Except Crash Unit := do
  check (0 ≤ cf.index) "(cf_index.index) >= (0)"
  check (cf.index < cfHandlesSize) "(cf_index.index) < (cf_handles_.size())"

/-- `AddReadConflictKey`. Both arms of the conditional have type
`std::optional<std::string>`, so `std::monostate` is stored as an empty optional. -/
def addReadConflictKey (txn : Txn) (cf : CFIndex) (key : Bytes) (value : ReadConstraint) :
    Except Crash Txn := do
  checkHandle cf
  let stored := match value with
    | .monostate => none
    | .optional v => v
  return { txn with readSet := txn.readSet.insert (cfKey cf key) (.optional stored) }

/-- `Get`. -/
def get (txn : Txn) (fault : Option Bytes) (cf : CFIndex) (key : Bytes)
    (excludeFromReadConflict : Bool) : Except Crash (Txn × Except Status (Option Bytes)) := do
  check (cf ≠ kInvalidCFIndex) "(cf_index) != (kInvalidCFIndex)"
  checkHandle cf
  match fault, txn.snapshot.get cf key with
  | some text, _ =>
    let status ← Status.systemError text none
      ⟨"src/namenode/table/kv/rocksdb_kv_store.cc", 83⟩
    return (txn, .error status)
  | none, some value =>
    if excludeFromReadConflict then return (txn, .ok (some value))
    else return (← txn.addReadConflictKey cf key (.optional (some value)), .ok (some value))
  | none, none =>
    if excludeFromReadConflict then return (txn, .ok none)
    else return (← txn.addReadConflictKey cf key .monostate, .ok none)

/-- The loop of `GetRange`: the iterator is the list of the entries from its
position on. -/
def getRangeLoop (endKey : Bytes) (limit : ℕ) :
    List (Bytes × Bytes) → List Bytes → List Bytes
  | [], values => values
  | (key, value) :: rest, values =>
    if key < endKey ∧ values.length < limit then
      getRangeLoop endKey limit rest (values ++ [value])
    else values

/-- `AddReadConflictKeyRange`, whose body is empty. -/
def addReadConflictKeyRange (txn : Txn) (_cf : CFIndex) (_startKey _endKey : Bytes) : Txn := txn

/-- `GetRange`. -/
def getRange (txn : Txn) (fault : Option Bytes) (cf : CFIndex) (startKey endKey : Bytes)
    (limit : ℕ) (excludeFromReadConflict : Bool) :
    Except Crash (Txn × Except Status (List Bytes)) := do
  check (cf ≠ kInvalidCFIndex) "(cf_index) != (kInvalidCFIndex)"
  checkHandle cf
  let values := getRangeLoop endKey limit ((txn.snapshot.cf cf).seek startKey) []
  match fault with
  | some text =>
    let status ← Status.systemError text none
      ⟨"src/namenode/table/kv/rocksdb_kv_store.cc", 120⟩
    return (txn, .error status)
  | none =>
    if excludeFromReadConflict then return (txn, .ok values)
    else return (txn.addReadConflictKeyRange cf startKey endKey, .ok values)

/-- `Put`. -/
def put (txn : Txn) (cf : CFIndex) (key value : Bytes) : Except Crash Txn := do
  checkHandle cf
  return { txn with writeSet := txn.writeSet.insert (cfKey cf key) (some value) }

/-- `Del`. -/
def del (txn : Txn) (cf : CFIndex) (key : Bytes) : Except Crash Txn := do
  checkHandle cf
  return { txn with writeSet := txn.writeSet.insert (cfKey cf key) none }

/-- The loop collects the values in front of the end key, up to the limit. -/
theorem getRangeLoop_eq (endKey : Bytes) (limit : ℕ) (iter : List (Bytes × Bytes))
    (values : List Bytes) :
    getRangeLoop endKey limit iter values = values ++
      ((iter.takeWhile fun e => e.1 < endKey).map Prod.snd).take (limit - values.length) := by
  induction iter generalizing values with
  | nil => simp [getRangeLoop]
  | cons e rest ih =>
    obtain ⟨key, value⟩ := e
    rw [getRangeLoop]
    split_ifs with hcond
    · obtain ⟨hkey, hlimit⟩ := hcond
      have hsub : limit - values.length = limit - (values ++ [value]).length + 1 := by
        simp only [List.length_append, List.length_singleton]
        omega
      rw [ih, List.takeWhile_cons_of_pos (by simpa using hkey), List.map_cons, hsub,
        List.take_succ_cons, List.append_assoc, List.singleton_append]
    · by_cases hkey : key < endKey
      · have hzero : limit - values.length = 0 := by
          have : ¬ values.length < limit := fun hlt => hcond ⟨hkey, hlt⟩
          omega
        simp [hzero]
      · rw [List.takeWhile_cons_of_neg (by simpa using hkey)]
        simp

end Txn

/-- What a range read of a database returns: the values of `[startKey, endKey)` in
key order, at most `limit` of them. -/
def Database.range (db : Database) (cf : CFIndex) (startKey endKey : Bytes) (limit : ℕ) :
    List Bytes :=
  (((db.cf cf).slice startKey endKey).map Prod.snd).take limit

theorem Txn.getRangeLoop_seek (db : Database) (cf : CFIndex) (startKey endKey : Bytes)
    (limit : ℕ) :
    Txn.getRangeLoop endKey limit ((db.cf cf).seek startKey) [] =
      db.range cf startKey endKey limit := by
  rw [getRangeLoop_eq, SortedMap.seek_takeWhile, List.nil_append, List.length_nil,
    Nat.sub_zero, Database.range]

/-! ### The conflict detector -/

/-- `RocksDBConflictDetector`. -/
structure ConflictDetector where
  committedTxns : SortedMap ℤ Txn
  latestPurgedVersion : ℤ

namespace ConflictDetector

/-- `HasConflict`. -/
def hasConflict (txn concurrentTxn : Txn) : Except Crash Bool := do
  check (txn.startVersion < concurrentTxn.commitVersion)
    "(txn.start_version_) < (concurrent_txn.commit_version_)"
  check (txn.commitVersion > concurrentTxn.commitVersion)
    "(txn.commit_version_) > (concurrent_txn.commit_version_)"
  return concurrentTxn.writeSet.entries.any fun e => (txn.readSet.lookup e.1).isSome

/-- The predicate of the `std::any_of` in `IsConflictFree`, over the remembered
transactions that are left. -/
def anyConflict (txn : Txn) : List (ℤ × Txn) → Except Crash Bool
  | [] => return false
  | (version, prevCommittedTxn) :: rest => do
    check (version = prevCommittedTxn.commitVersion)
      "(version) == (prev_committed_txn->commit_version_)"
    if ← hasConflict txn prevCommittedTxn then return true
    else anyConflict txn rest

/-- `IsConflictFree`. It reads `committed_txns_` and changes nothing. -/
def isConflictFree (detector : ConflictDetector) (txn : Txn) : Except Crash Bool := do
  check (txn.startVersion > 0) "(txn->start_version_) > (0)"
  check (txn.commitVersion > txn.startVersion)
    "(txn->commit_version_) > (txn->start_version_)"
  if txn.startVersion < detector.latestPurgedVersion then return false
  else
    -- `lower_bound(start_version_)` up to `upper_bound(commit_version_)`
    let window := (detector.committedTxns.seek txn.startVersion).takeWhile
      fun e => e.1 ≤ txn.commitVersion
    return !(← anyConflict txn window)

/-- `PurgeTo`: forget the transactions committed up to a version. -/
def purgeTo (detector : ConflictDetector) (version : ℤ) : ConflictDetector where
  committedTxns := detector.committedTxns.eraseUpTo version
  latestPurgedVersion :=
    if version > detector.latestPurgedVersion then version else detector.latestPurgedVersion

end ConflictDetector

/-! ### The store -/

/-- `RocksDBKVStore`. -/
structure KVStore where
  db : Database
  version : ℤ
  conflictDetector : ConflictDetector

namespace KVStore

/-- The constructor of `RocksDBKVStore`, on the database it opens. -/
def openDb (db : Database) : KVStore where
  db := db
  version := 1
  conflictDetector := ⟨.empty, 1 - 1⟩

/-- `version_.fetch_add(1)`, the new state of the store. -/
def bumpVersion (store : KVStore) : KVStore := { store with version := store.version + 1 }

/-- `StartTxn`: draw a version, then take a snapshot. -/
def startTxn (store : KVStore) : Txn × KVStore :=
  (Txn.new store.db store.version, store.bumpVersion)

/-- `CommitTxn`: draw a version, check for conflicts, apply the batch. -/
def commitTxn (store : KVStore) (txn : Txn) : Except Crash (Except Status Unit) × KVStore :=
  let txn := { txn with commitVersion := store.version }
  let store := store.bumpVersion
  match store.conflictDetector.isConflictFree txn with
  | .error crash => (.error crash, store)
  | .ok false =>
    ((Status.conflictError [] none
      ⟨"src/namenode/table/kv/rocksdb_kv_store.cc", 257⟩).map .error, store)
  | .ok true => (.ok (.ok ()), { store with db := store.db.write txn.writeSet })

end KVStore

end RocketFS
