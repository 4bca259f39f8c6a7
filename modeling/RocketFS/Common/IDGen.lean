import RocketFS.Common.Status

/-!
# Id generators

An id is a 64-bit word read as the bit-fields of `struct ID`. On x86-64 bit-fields
are allocated from the least significant bit, so the first member, the timestamp,
has the low 32 bits and the auto-increment the high 24. `Next` adds one to the whole
word, hence to the timestamp, and while the word fits in 32 bits a generator for
node 0 and clock sequence 0 is a counter that `Update` moves up
(`IDGen.toNat_updateStore`).

`Update` loads the word and stores the new one in two atomic operations, between
which other threads may call `Next`; its two halves are separate definitions.
-/

namespace RocketFS

def kEpochTimestampSeconds : Int64 := 1742256000

def kMaxAutoIncrementID : ℕ := 10000000

/-- `struct ID`, its members in the order of their bits. -/
structure ID where
  timestampSeconds : BitVec 32
  nodeId : BitVec 4
  clockSequence : BitVec 4
  autoIncrementId : BitVec 24
  deriving DecidableEq

namespace ID

/-- `*reinterpret_cast<ID*>(&raw_id)`. -/
def ofRaw (rawId : UInt64) : ID where
  timestampSeconds := rawId.toBitVec.extractLsb' 0 32
  nodeId := rawId.toBitVec.extractLsb' 32 4
  clockSequence := rawId.toBitVec.extractLsb' 36 4
  autoIncrementId := rawId.toBitVec.extractLsb' 40 24

/-- `*reinterpret_cast<uint64_t*>(&id)`. -/
def toRaw (id : ID) : UInt64 :=
  ⟨id.autoIncrementId ++ id.clockSequence ++ id.nodeId ++ id.timestampSeconds⟩

/-! ### The fields of a word as numbers -/

theorem toNat_timestampSeconds (rawId : UInt64) :
    (ofRaw rawId).timestampSeconds.toNat = rawId.toNat % 2 ^ 32 := by
  simp [ofRaw, BitVec.extractLsb'_toNat]

theorem toNat_nodeId (rawId : UInt64) :
    (ofRaw rawId).nodeId.toNat = rawId.toNat / 2 ^ 32 % 2 ^ 4 := by
  simp [ofRaw, BitVec.extractLsb'_toNat, Nat.shiftRight_eq_div_pow]

theorem toNat_clockSequence (rawId : UInt64) :
    (ofRaw rawId).clockSequence.toNat = rawId.toNat / 2 ^ 36 % 2 ^ 4 := by
  simp [ofRaw, BitVec.extractLsb'_toNat, Nat.shiftRight_eq_div_pow]

theorem toNat_autoIncrementId (rawId : UInt64) :
    (ofRaw rawId).autoIncrementId.toNat = rawId.toNat / 2 ^ 40 := by
  have hlt : rawId.toNat < 2 ^ 64 := rawId.toNat_lt
  simp only [ofRaw, BitVec.extractLsb'_toNat, Nat.shiftRight_eq_div_pow]
  change rawId.toNat / 2 ^ 40 % 2 ^ 24 = _
  omega

/-- A word is the sum of its fields, each at its place. -/
theorem toNat_toRaw_eq (id : ID) :
    id.toRaw.toNat = id.autoIncrementId.toNat * 2 ^ 40 + id.clockSequence.toNat * 2 ^ 36 +
      id.nodeId.toNat * 2 ^ 32 + id.timestampSeconds.toNat := by
  change (id.autoIncrementId ++ id.clockSequence ++ id.nodeId ++ id.timestampSeconds).toNat = _
  have htimestamp := id.timestampSeconds.isLt
  have hnode := id.nodeId.isLt
  have hclock := id.clockSequence.isLt
  rw [BitVec.toNat_append, BitVec.toNat_append, BitVec.toNat_append,
    ← Nat.shiftLeft_add_eq_or_of_lt hclock, ← Nat.shiftLeft_add_eq_or_of_lt hnode,
    ← Nat.shiftLeft_add_eq_or_of_lt htimestamp]
  simp only [Nat.shiftLeft_eq]
  ring

end ID

/-- `IDGen`. -/
structure IDGen where
  nodeId : UInt8
  clockSequence : UInt8
  id : UInt64
  deriving DecidableEq

/-- What an `Update` that has not returned yet keeps: the word it loaded, whose
timestamp is below the one it was given. -/
structure PendingUpdate where
  rawId : UInt64
  timestampSeconds : UInt32
  later : (ID.ofRaw rawId).timestampSeconds.toNat < timestampSeconds.toNat

namespace IDGen

/-- The three checks that `Next` and `Update` begin with. -/
def checkID (gen : IDGen) (id : ID) : Except Crash Unit := do
  check (id.nodeId.toNat = gen.nodeId.toNat) "(id.node_id) == (node_id_)"
  check (id.clockSequence.toNat = gen.clockSequence.toNat)
    "(id.clock_sequence) == (clock_sequence_)"
  check (id.autoIncrementId.toNat < kMaxAutoIncrementID)
    "(id.auto_increment_id) < (kMaxAutoIncrementID)"

/-- `Next`: the word is incremented also when a check fails. -/
def next (gen : IDGen) : Except Crash UInt64 × IDGen :=
  let rawId := gen.id + 1
  ((gen.checkID (ID.ofRaw rawId)).map fun _ => rawId, { gen with id := rawId })

/-- `Update` up to the store: `none` when it returns before. -/
def updateLoad (gen : IDGen) (timestampSeconds : UInt32) :
    Except Crash (Option PendingUpdate) := do
  gen.checkID (ID.ofRaw gen.id)
  if h : (ID.ofRaw gen.id).timestampSeconds.toNat ≥ timestampSeconds.toNat then return none
  else return some ⟨gen.id, timestampSeconds, by omega⟩

/-- The store of `Update`, on whatever the word has become. -/
def updateStore (gen : IDGen) (pending : PendingUpdate) : IDGen :=
  let id := { ID.ofRaw pending.rawId with
    timestampSeconds := pending.timestampSeconds.toBitVec
    autoIncrementId := 0 }
  { gen with id := id.toRaw }

/-- The constructor, which calls `Update`. -/
def new (timestampSeconds : UInt32) (nodeId clockSequence : UInt8) : Except Crash IDGen := do
  let gen : IDGen := ⟨nodeId, clockSequence, 0⟩
  match ← gen.updateLoad timestampSeconds with
  | none => return gen
  | some pending => return gen.updateStore pending

theorem eq_of_next {gen : IDGen} {rawId : UInt64} (h : gen.next.1 = .ok rawId) :
    rawId = gen.id + 1 := by
  obtain ⟨_, _, rfl⟩ := map_ok h
  rfl

theorem updateLoad_none {gen : IDGen} {timestampSeconds : UInt32}
    (h : gen.updateLoad timestampSeconds = .ok none) :
    timestampSeconds.toNat ≤ (ID.ofRaw gen.id).timestampSeconds.toNat := by
  obtain ⟨_, _, h⟩ := bind_ok h
  split_ifs at h with hle
  · exact hle
  · cases h

theorem toNat_next_of_lt {gen : IDGen} (h : gen.id.toNat + 1 < 2 ^ 64) :
    gen.next.2.id.toNat = gen.id.toNat + 1 := by
  change (gen.id + 1).toNat = _
  rw [UInt64.toNat_add]
  exact Nat.mod_eq_of_lt h

section Counter

variable {gen : IDGen} (h : gen.id.toNat < 2 ^ 32)

include h

theorem toNat_timestampSeconds : (ID.ofRaw gen.id).timestampSeconds.toNat = gen.id.toNat := by
  rw [ID.toNat_timestampSeconds, Nat.mod_eq_of_lt h]

/-- An `Update` that runs alone moves the counter up to its timestamp. -/
theorem toNat_updateStore {pending : PendingUpdate} (hraw : pending.rawId = gen.id) :
    (gen.updateStore pending).id.toNat = pending.timestampSeconds.toNat ∧
      gen.id.toNat < pending.timestampSeconds.toNat := by
  have hlater := pending.later
  rw [hraw, toNat_timestampSeconds h] at hlater
  refine ⟨?_, hlater⟩
  -- the other fields of the word are zero, and stay so
  simp only [updateStore, ID.toNat_toRaw_eq, ID.toNat_clockSequence, ID.toNat_nodeId, hraw]
  change 0 * 2 ^ 40 + _ + _ + pending.timestampSeconds.toNat = _
  omega

theorem toNat_next (hnext : gen.id.toNat + 1 < 2 ^ 32) :
    gen.next.2.id.toNat = gen.id.toNat + 1 :=
  toNat_next_of_lt (by omega)

end Counter

end IDGen

/-- The timestamp `IDGenMgr` derives from a clock reading. It divides nanoseconds by
`kMsToUs * kUsToNs`, which gives milliseconds, and passes the difference on as a
`uint32_t`. -/
def IDGenMgr.timestampSeconds (nowNs : Int64) : Except Crash UInt32 := do
  let currentTimestampSeconds := nowNs / (1000 * 1000)
  check (kEpochTimestampSeconds < currentTimestampSeconds)
    "(current_timestamp_seconds) > (kEpochTimestampSeconds)"
  return (currentTimestampSeconds - kEpochTimestampSeconds).toUInt64.toUInt32

end RocketFS
