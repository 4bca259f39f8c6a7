import RocketFS.Common.IDGen
import RocketFS.Lib.Ratchet

/-!
# Serial calls of an id generator

One thread calls `Next` and `Update` on a generator, in any order and with any
timestamps. A call that fails a check is a call like any other: it has thrown, and the
generator is left in the state it had come to.

A generator for node 0 and clock sequence 0, the only one whose constructor returns, is a
counter of 32 bits until the first check fails: its ids increase, and they are not below
any timestamp that was passed on before.

## Main definitions

* `serialStep` — one call
* `issuedIds` — the ids a trace of calls has returned
* `IDGen.Passes` — the word passes the checks of the generator

## Main results

* `ids_carry_generator_iff` — which generators can be built, and what their ids carry
* `ids_ordered_by_time` — ids increase, and are not below any timestamp seen before
-/

namespace RocketFS

/-- A call on a generator. -/
inductive IDCall
  | next
  | update (timestampSeconds : UInt32)
  deriving DecidableEq

/-- How a call ends. For `Update`, which returns nothing, it is noted whether it has stored
a new word. -/
inductive IDResult
  | id (result : Except Crash UInt64)
  | updated (result : Except Crash Bool)
  deriving DecidableEq

/-- The check that a call has failed, if any. -/
def IDResult.crash? : IDResult → Option Crash
  | .id (.error crash) => some crash
  | .updated (.error crash) => some crash
  | _ => none

/-- `Update`, run from its load to its store. -/
def IDGen.update (gen : IDGen) (timestampSeconds : UInt32) : Except Crash Bool × IDGen :=
  match gen.updateLoad timestampSeconds with
  | .error crash => (.error crash, gen)
  | .ok none => (.ok false, gen)
  | .ok (some pending) => (.ok true, gen.updateStore pending)

/-- One call. -/
def serialStep (gen : IDGen) : IDCall → Option (IDGen × IDResult)
  | .next => some (gen.next.2, .id gen.next.1)
  | .update timestampSeconds =>
    some ((gen.update timestampSeconds).2, .updated (gen.update timestampSeconds).1)

abbrev IDTrace := List (IDCall × IDResult)

/-- The id a call has returned. -/
def issuedId : IDCall × IDResult → Option UInt64
  | (.next, .id (.ok id)) => some id
  | _ => none

/-- The ids returned along a trace, in order. -/
def issuedIds (trace : IDTrace) : List UInt64 := trace.filterMap issuedId

/-! ### What a call does -/

namespace IDGen

variable {gen gen' : IDGen}

/-- The word passes the three checks. -/
def Passes (gen : IDGen) (rawId : ℕ) : Prop :=
  rawId / 2 ^ 32 % 2 ^ 4 = gen.nodeId.toNat ∧ rawId / 2 ^ 36 % 2 ^ 4 = gen.clockSequence.toNat ∧
    rawId / 2 ^ 40 < kMaxAutoIncrementID

instance (gen : IDGen) (rawId : ℕ) : Decidable (gen.Passes rawId) :=
  inferInstanceAs (Decidable (_ ∧ _ ∧ _))

theorem checkID_ok_iff {rawId : UInt64} :
    gen.checkID (ID.ofRaw rawId) = .ok () ↔ gen.Passes rawId.toNat := by
  unfold Passes
  rw [← ID.toNat_nodeId, ← ID.toNat_clockSequence, ← ID.toNat_autoIncrementId]
  constructor
  · intro h
    obtain ⟨_, hnode, h⟩ := bind_ok h
    obtain ⟨_, hclock, hauto⟩ := bind_ok h
    exact ⟨of_decide_eq_true (check_ok hnode), of_decide_eq_true (check_ok hclock),
      of_decide_eq_true (check_ok hauto)⟩
  · rintro ⟨hnode, hclock, hauto⟩
    simp [checkID, hnode, hclock, hauto]

theorem exists_crash_of_not_passes {rawId : UInt64} (h : ¬ gen.Passes rawId.toNat) :
    ∃ crash, gen.checkID (ID.ofRaw rawId) = .error crash := by
  cases hcheck : gen.checkID (ID.ofRaw rawId) with
  | error crash => exact ⟨crash, rfl⟩
  | ok _ => exact absurd (checkID_ok_iff.mp hcheck) h

/-- The bits between the timestamp and the auto-increment, at their place: they tell
generators apart. -/
def tag (gen : IDGen) : ℕ := gen.clockSequence.toNat * 2 ^ 36 + gen.nodeId.toNat * 2 ^ 32

/-- The same generator with another word. -/
def withId (gen : IDGen) (rawId : UInt64) : IDGen := { gen with id := rawId }

end IDGen

/-- Everything a call can do. -/
inductive SerialStep (gen : IDGen) : IDCall → IDResult → IDGen → Prop
  | issued (hpasses : gen.Passes (gen.id + 1).toNat) :
      SerialStep gen .next (.id (.ok (gen.id + 1))) (gen.withId (gen.id + 1))
  | rejected (hpasses : ¬ gen.Passes (gen.id + 1).toNat) (crash : Crash) :
      SerialStep gen .next (.id (.error crash)) (gen.withId (gen.id + 1))
  | kept {timestampSeconds : UInt32} (hpasses : gen.Passes gen.id.toNat)
      (hle : timestampSeconds.toNat ≤ gen.id.toNat % 2 ^ 32) :
      SerialStep gen (.update timestampSeconds) (.updated (.ok false)) gen
  | moved {timestampSeconds : UInt32} {rawId : UInt64} (hpasses : gen.Passes gen.id.toNat)
      (hlt : gen.id.toNat % 2 ^ 32 < timestampSeconds.toNat)
      (hraw : rawId.toNat = gen.tag + timestampSeconds.toNat) :
      SerialStep gen (.update timestampSeconds) (.updated (.ok true)) (gen.withId rawId)
  | refused {timestampSeconds : UInt32} (hpasses : ¬ gen.Passes gen.id.toNat) (crash : Crash) :
      SerialStep gen (.update timestampSeconds) (.updated (.error crash)) gen

namespace IDGen

variable {gen : IDGen}

/-- The word `Update` stores. -/
theorem toNat_updateStore_id {pending : PendingUpdate} (hraw : pending.rawId = gen.id)
    (hpasses : gen.Passes gen.id.toNat) :
    (gen.updateStore pending).id.toNat = gen.tag + pending.timestampSeconds.toNat := by
  obtain ⟨hnode, hclock, _⟩ := hpasses
  rw [← ID.toNat_nodeId] at hnode
  rw [← ID.toNat_clockSequence] at hclock
  change (ID.toRaw _).toNat = _
  rw [ID.toNat_toRaw_eq, hraw, hnode, hclock, tag]
  simp

theorem next_of_passes (hpasses : gen.Passes (gen.id + 1).toNat) :
    gen.next = (.ok (gen.id + 1), gen.withId (gen.id + 1)) := by
  simp only [next, checkID_ok_iff.mpr hpasses]
  rfl

theorem next_of_not_passes (hpasses : ¬ gen.Passes (gen.id + 1).toNat) :
    ∃ crash, gen.next = (.error crash, gen.withId (gen.id + 1)) := by
  obtain ⟨crash, hcrash⟩ := exists_crash_of_not_passes hpasses
  refine ⟨crash, ?_⟩
  simp only [next, hcrash]
  rfl

theorem next_cases (gen : IDGen) : SerialStep gen .next (.id gen.next.1) gen.next.2 := by
  by_cases hpasses : gen.Passes (gen.id + 1).toNat
  · rw [next_of_passes hpasses]
    exact .issued hpasses
  · obtain ⟨crash, hnext⟩ := next_of_not_passes hpasses
    rw [hnext]
    exact .rejected hpasses crash

/-- `Update` makes its checks before it changes anything. -/
theorem update_of_not_passes (hpasses : ¬ gen.Passes gen.id.toNat) (timestampSeconds : UInt32) :
    ∃ crash, gen.update timestampSeconds = (.error crash, gen) := by
  obtain ⟨crash, hcrash⟩ := exists_crash_of_not_passes hpasses
  have hload : gen.updateLoad timestampSeconds = .error crash := by
    rw [updateLoad, hcrash]
    rfl
  refine ⟨crash, ?_⟩
  rw [update, hload]

theorem update_cases (gen : IDGen) (timestampSeconds : UInt32) :
    SerialStep gen (.update timestampSeconds) (.updated (gen.update timestampSeconds).1)
      (gen.update timestampSeconds).2 := by
  by_cases hpasses : gen.Passes gen.id.toNat
  · have hload : gen.updateLoad timestampSeconds =
        if h : (ID.ofRaw gen.id).timestampSeconds.toNat ≥ timestampSeconds.toNat then .ok none
        else .ok (some ⟨gen.id, timestampSeconds, not_le.mp h⟩) := by
      rw [updateLoad, checkID_ok_iff.mpr hpasses]
      rfl
    rw [update, hload]
    split_ifs with hle
    · refine .kept hpasses ?_
      rw [← ID.toNat_timestampSeconds]
      exact hle
    · refine .moved hpasses ?_ (toNat_updateStore_id rfl hpasses)
      rw [← ID.toNat_timestampSeconds]
      exact not_le.mp hle
  · obtain ⟨crash, hupdate⟩ := update_of_not_passes hpasses timestampSeconds
    rw [hupdate]
    exact .refused hpasses crash

end IDGen

theorem serialStep_inv {gen gen' : IDGen} {call : IDCall} {result : IDResult}
    (h : serialStep gen call = some (gen', result)) : SerialStep gen call result gen' := by
  cases call with
  | next =>
    obtain ⟨rfl, rfl⟩ := Prod.mk.inj (Option.some.inj h)
    exact gen.next_cases
  | update timestampSeconds =>
    obtain ⟨rfl, rfl⟩ := Prod.mk.inj (Option.some.inj h)
    exact gen.update_cases timestampSeconds

/-! ### Runs -/

section Runs

variable {gen gen' s s' : IDGen} {trace trace' : IDTrace}

@[simp] theorem IDGen.withId_id (gen : IDGen) (rawId : UInt64) : (gen.withId rawId).id = rawId :=
  rfl

@[simp] theorem IDGen.withId_passes (gen : IDGen) (rawId : UInt64) :
    (gen.withId rawId).Passes = gen.Passes := rfl

/-- Calls change the word and nothing else. -/
theorem SerialStep.exists_withId {call : IDCall} {result : IDResult}
    (h : SerialStep gen call result s) : ∃ rawId, s = gen.withId rawId := by
  cases h with
  | issued | rejected | moved => exact ⟨_, rfl⟩
  | kept | refused => exact ⟨gen.id, rfl⟩

theorem exists_withId_run (h : Run serialStep gen trace s) : ∃ rawId, s = gen.withId rawId := by
  induction h with
  | nil => exact ⟨gen.id, rfl⟩
  | snoc _ hs ih =>
    obtain ⟨_, rfl⟩ := ih
    exact (serialStep_inv hs).exists_withId

/-- An id that a call returns has passed the checks. -/
theorem SerialStep.passes_of_issued {call : IDCall} {result : IDResult}
    (h : SerialStep gen call result s) {id : UInt64} (hid : issuedId (call, result) = some id) :
    gen.Passes id.toNat := by
  cases h with
  | issued hpasses =>
    obtain rfl := Option.some.inj hid
    exact hpasses
  | rejected | kept | moved | refused => cases hid

/-- So have all ids of a run. -/
theorem passes_of_mem_issuedIds (h : Run serialStep gen trace s) {id : UInt64}
    (hid : id ∈ issuedIds trace) : gen.Passes id.toNat := by
  obtain ⟨⟨call, result⟩, he, hissued⟩ := List.mem_filterMap.mp hid
  obtain ⟨before, after, rfl⟩ := List.append_of_mem he
  obtain ⟨s₁, s₂, hbefore, hs, _⟩ := h.step_at
  -- the checks are those of the generator the run has started with
  obtain ⟨rawId, rfl⟩ := exists_withId_run hbefore
  exact (serialStep_inv hs).passes_of_issued hissued

end Runs

/-! ### Constructors -/

/-- The members of a generator before its constructor calls `Update`. -/
def IDGen.blank (nodeId clockSequence : UInt8) : IDGen := ⟨nodeId, clockSequence, 0⟩

/-- The constructor returns when its call of `Update` does. -/
theorem IDGen.new_ok {timestampSeconds : UInt32} {nodeId clockSequence : UInt8} {gen : IDGen}
    (h : IDGen.new timestampSeconds nodeId clockSequence = .ok gen) :
    ∃ stored, (blank nodeId clockSequence).update timestampSeconds = (.ok stored, gen) := by
  obtain ⟨pending, hload, h⟩ := bind_ok h
  rw [update, blank, hload]
  cases pending with
  | none =>
    cases h
    exact ⟨false, rfl⟩
  | some pending =>
    cases h
    exact ⟨true, rfl⟩

/-- It fails when the checks of `Update` do, which it makes on a word that is still zero. -/
theorem IDGen.new_ok_iff (timestampSeconds : UInt32) (nodeId clockSequence : UInt8) :
    (∃ gen, IDGen.new timestampSeconds nodeId clockSequence = .ok gen) ↔
      nodeId = 0 ∧ clockSequence = 0 := by
  constructor
  · rintro ⟨gen, h⟩
    obtain ⟨_, hload, _⟩ := bind_ok h
    obtain ⟨_, hcheck, _⟩ := bind_ok hload
    obtain ⟨hnode, hclock, _⟩ := checkID_ok_iff.mp hcheck
    have hnode : nodeId.toNat = 0 := by simpa using hnode.symm
    have hclock : clockSequence.toNat = 0 := by simpa using hclock.symm
    exact ⟨UInt8.toNat_inj.mp hnode, UInt8.toNat_inj.mp hclock⟩
  · rintro ⟨rfl, rfl⟩
    have hcheck : (⟨0, 0, 0⟩ : IDGen).checkID (ID.ofRaw 0) = .ok () := rfl
    rw [new, updateLoad, hcheck, ok_bind]
    split_ifs
    · exact ⟨_, rfl⟩
    · exact ⟨_, rfl⟩

/-- A generator can be built for node 0 and clock sequence 0 only; its ids carry both, and no
two generators that differ in them return the same id. -/
theorem ids_carry_generator_iff (timestampSeconds : UInt32) (nodeId clockSequence : UInt8) :
    ((∃ gen, IDGen.new timestampSeconds nodeId clockSequence = .ok gen ∧
        ∀ trace s, Run serialStep gen trace s → ∀ id ∈ issuedIds trace,
          (ID.ofRaw id).nodeId.toNat = nodeId.toNat ∧
            (ID.ofRaw id).clockSequence.toNat = clockSequence.toNat) ↔
      nodeId = 0 ∧ clockSequence = 0) ∧
    ∀ (gen gen' : IDGen) (trace trace' : IDTrace) (s s' : IDGen),
      (gen.nodeId, gen.clockSequence) ≠ (gen'.nodeId, gen'.clockSequence) →
        Run serialStep gen trace s → Run serialStep gen' trace' s' →
          ∀ id ∈ issuedIds trace, id ∉ issuedIds trace' := by
  refine ⟨⟨?_, ?_⟩, ?_⟩
  · rintro ⟨gen, hnew, _⟩
    exact (IDGen.new_ok_iff timestampSeconds nodeId clockSequence).mp ⟨gen, hnew⟩
  · intro hzero
    obtain ⟨gen, hnew⟩ := (IDGen.new_ok_iff timestampSeconds nodeId clockSequence).mpr hzero
    refine ⟨gen, hnew, fun trace s hrun id hid => ?_⟩
    -- the constructor leaves both members as they were given
    obtain ⟨stored, hupdate⟩ := IDGen.new_ok hnew
    have hstep := (IDGen.blank nodeId clockSequence).update_cases timestampSeconds
    rw [hupdate] at hstep
    obtain ⟨rawId, rfl⟩ := hstep.exists_withId
    obtain ⟨hnode, hclock, _⟩ := passes_of_mem_issuedIds hrun hid
    rw [ID.toNat_nodeId, ID.toNat_clockSequence]
    exact ⟨hnode, hclock⟩
  · intro gen gen' trace trace' s s' hne hrun hrun' id hid hid'
    obtain ⟨hnode, hclock, _⟩ := passes_of_mem_issuedIds hrun hid
    obtain ⟨hnode', hclock', _⟩ := passes_of_mem_issuedIds hrun' hid'
    apply hne
    rw [UInt8.toNat_inj.mp (hnode.symm.trans hnode'),
      UInt8.toNat_inj.mp (hclock.symm.trans hclock')]

/-- The constructor for node 1 throws. -/
theorem new_node_one_throws :
    IDGen.new 5 1 0 = .error (.check "(id.node_id) == (node_id_)") := rfl

/-! ### Ids are ordered by time -/

/-- The call fails no check. -/
def passesChecks (gen : IDGen) (call : IDCall) : Bool :=
  (serialStep gen call).all fun p => p.2.crash?.isNone

/-- The timestamp a call passes on. -/
def passedTimestamp : IDCall × IDResult → Option ℕ
  | (.update timestampSeconds, _) => some timestampSeconds.toNat
  | _ => none

/-- The generator is a counter: all bits above the timestamp are zero. -/
structure IDGen.Counts (gen : IDGen) : Prop where
  nodeId : gen.nodeId = 0
  clockSequence : gen.clockSequence = 0
  small : gen.id.toNat < 2 ^ 32

section Counts

variable {gen gen' : IDGen} {call : IDCall} {result : IDResult}

theorem IDGen.Counts.tag_eq (h : gen.Counts) : gen.tag = 0 := by
  rw [tag, h.nodeId, h.clockSequence]
  rfl

theorem IDGen.Counts.withId (h : gen.Counts) {rawId : UInt64} (hsmall : rawId.toNat < 2 ^ 32) :
    (gen.withId rawId).Counts :=
  ⟨h.nodeId, h.clockSequence, hsmall⟩

/-- A `Next` that passes its checks stays inside the timestamp. -/
theorem IDGen.Counts.toNat_next (h : gen.Counts) (hpasses : gen.Passes (gen.id + 1).toNat) :
    (gen.id + 1).toNat = gen.id.toNat + 1 ∧ gen.id.toNat + 1 < 2 ^ 32 := by
  have hsmall := h.small
  have hnext : (gen.id + 1).toNat = gen.id.toNat + 1 := by
    rw [UInt64.toNat_add]
    exact Nat.mod_eq_of_lt (by change gen.id.toNat + 1 < _; omega)
  refine ⟨hnext, ?_⟩
  -- a carry out of the timestamp would show in the node id
  obtain ⟨hnode, _, _⟩ := hpasses
  rw [h.nodeId, hnext] at hnode
  change _ = 0 at hnode
  omega

/-- What a call that passes its checks does to a counter. -/
theorem IDGen.Counts.step (h : gen.Counts) (hstep : SerialStep gen call result gen')
    (hcrash : result.crash? = none) :
    gen'.Counts ∧ gen.id.toNat ≤ gen'.id.toNat ∧
      (∀ id, issuedId (call, result) = some id →
        gen.id.toNat < id.toNat ∧ id.toNat ≤ gen'.id.toNat) ∧
      ∀ n, passedTimestamp (call, result) = some n → n ≤ gen'.id.toNat := by
  cases hstep with
  | issued hpasses =>
    obtain ⟨hnext, hroom⟩ := h.toNat_next hpasses
    refine ⟨h.withId (by omega), ?_, ?_, ?_⟩
    · rw [IDGen.withId_id, hnext]
      omega
    · intro id hid
      obtain rfl := Option.some.inj hid
      rw [IDGen.withId_id]
      omega
    · intro n hn
      cases hn
  | rejected _ crash => cases hcrash
  | kept _ hle =>
    refine ⟨h, le_rfl, ?_, ?_⟩
    · intro id hid
      cases hid
    · intro n hn
      obtain rfl := Option.some.inj hn
      exact hle.trans (Nat.mod_le _ _)
  | @moved timestampSeconds rawId _ hlt hraw =>
    rw [h.tag_eq, Nat.zero_add] at hraw
    rw [Nat.mod_eq_of_lt h.small] at hlt
    refine ⟨h.withId (hraw ▸ timestampSeconds.toNat_lt), ?_, ?_, ?_⟩
    · rw [IDGen.withId_id, hraw]
      exact hlt.le
    · intro id hid
      cases hid
    · intro n hn
      obtain rfl := Option.some.inj hn
      rw [IDGen.withId_id, hraw]
  | refused _ crash => cases hcrash

theorem guarded_serialStep_inv
    (h : guarded serialStep passesChecks gen call = some (gen', result)) :
    SerialStep gen call result gen' ∧ result.crash? = none := by
  obtain ⟨hpasses, hstep⟩ := guarded_eq_some.mp h
  refine ⟨serialStep_inv hstep, ?_⟩
  rw [passesChecks, hstep] at hpasses
  exact Option.isNone_iff_eq_none.mp hpasses

/-- Up to the first failed check, a generator for node 0 and clock sequence 0 only moves
up. -/
theorem serialStep_ratchets :
    Ratchets (guarded serialStep passesChecks) IDGen.Counts (fun gen => gen.id.toNat) issuedId
      UInt64.toNat passedTimestamp where
  keeps hinv h := by
    obtain ⟨hstep, hcrash⟩ := guarded_serialStep_inv h
    exact (hinv.step hstep hcrash).1
  mono hinv h := by
    obtain ⟨hstep, hcrash⟩ := guarded_serialStep_inv h
    exact (hinv.step hstep hcrash).2.1
  issue_gt hinv h hid := by
    obtain ⟨hstep, hcrash⟩ := guarded_serialStep_inv h
    exact ((hinv.step hstep hcrash).2.2.1 _ hid).1
  issue_le hinv h hid := by
    obtain ⟨hstep, hcrash⟩ := guarded_serialStep_inv h
    exact ((hinv.step hstep hcrash).2.2.1 _ hid).2
  floor_le hinv h hfloor := by
    obtain ⟨hstep, hcrash⟩ := guarded_serialStep_inv h
    exact (hinv.step hstep hcrash).2.2.2 _ hfloor

/-- The constructor for node 0 and clock sequence 0 makes a counter that has reached its
timestamp. -/
theorem IDGen.counts_new {timestampSeconds : UInt32}
    (h : IDGen.new timestampSeconds 0 0 = .ok gen) :
    gen.Counts ∧ timestampSeconds.toNat ≤ gen.id.toNat := by
  obtain ⟨stored, hupdate⟩ := IDGen.new_ok h
  have hblank : (blank 0 0).Counts := ⟨rfl, rfl, by decide⟩
  have hstep := (blank 0 0).update_cases timestampSeconds
  rw [hupdate] at hstep
  obtain ⟨hcounts, _, _, htimestamp⟩ := hblank.step hstep rfl
  exact ⟨hcounts, htimestamp _ rfl⟩

end Counts

/-- Up to the first failed check, the ids a generator for node 0 and clock sequence 0 returns
increase, and the timestamp of each is at least every timestamp passed on before it. -/
theorem ids_ordered_by_time {timestampSeconds : UInt32} {gen s : IDGen} {trace : IDTrace}
    (hnew : IDGen.new timestampSeconds 0 0 = .ok gen)
    (h : Run (guarded serialStep passesChecks) gen trace s) :
    (issuedIds trace).Pairwise (· < ·) ∧
      ∀ before id after, trace = before ++ (.next, .id (.ok id)) :: after →
        timestampSeconds.toNat ≤ (ID.ofRaw id).timestampSeconds.toNat ∧
          ∀ earlier result, (.update earlier, result) ∈ before →
            earlier.toNat ≤ (ID.ofRaw id).timestampSeconds.toNat := by
  obtain ⟨hcounts, hstart⟩ := IDGen.counts_new hnew
  refine ⟨serialStep_ratchets.issued_increasing hcounts h, fun before id after htrace => ?_⟩
  -- all of the id is timestamp
  have hmem : id ∈ trace.filterMap issuedId :=
    List.mem_filterMap.mpr ⟨(.next, .id (.ok id)), by simp [htrace], rfl⟩
  have hsmall : id.toNat < 2 ^ 32 :=
    (serialStep_ratchets.issued_le hcounts h id hmem).trans_lt
      (serialStep_ratchets.inv_of_run hcounts h).small
  rw [ID.toNat_timestampSeconds, Nat.mod_eq_of_lt hsmall]
  rw [htrace] at h
  obtain ⟨habove, hfloors⟩ := serialStep_ratchets.lt_issued hcounts h
    (show issuedId (.next, .id (.ok id)) = some id from rfl)
  refine ⟨hstart.trans habove.le, fun earlier result hearlier => ?_⟩
  exact (hfloors _ hearlier _ rfl).le

/-- A generator that starts at 5, with an `Update` that goes back and one that goes on. -/
def backAndForth : List IDCall := [.next, .update 3, .next, .update 10, .next]

def backAndForthTrace : IDTrace :=
  [(.next, .id (.ok 6)), (.update 3, .updated (.ok false)), (.next, .id (.ok 7)),
    (.update 10, .updated (.ok true)), (.next, .id (.ok 11))]

theorem ids_ordered_backAndForth :
    IDGen.new 5 0 0 = .ok ⟨0, 0, 5⟩ ∧
      (∃ s, Run (guarded serialStep passesChecks) ⟨0, 0, 5⟩ backAndForthTrace s) ∧
      (issuedIds backAndForthTrace).Pairwise (· < ·) := by
  have hnew : IDGen.new 5 0 0 = .ok ⟨0, 0, 5⟩ := rfl
  obtain ⟨s, hrun⟩ : ∃ s, Run (guarded serialStep passesChecks) ⟨0, 0, 5⟩ backAndForthTrace s :=
    exists_run_of_replay backAndForth rfl
  exact ⟨hnew, ⟨s, hrun⟩, (ids_ordered_by_time hnew hrun).1⟩

end RocketFS
