import RocketFS.KV.Conflicts
import RocketFS.KV.Sessions

/-!
# What a transaction records about its reads

The calls on one transaction object, in any order and number. `Get` records the key
it read and what it found there; `GetRange` records nothing, because the body of
`AddReadConflictKeyRange` is empty.

## Main definitions

* `callStep` — one call on a transaction object
* `PointRead`, `RangeRead` — the reads of a trace that take part in conflict detection
* `ReadConstraint.Holds` — what `TxnBase::AddReadConflictKey` documents about an entry
* `PhantomsRejected` — no transaction commits over a write into a range it has read

## Main results

* `readSet_lookup` — the read set after any calls
* `readConstraints_hold_iff` — the entries are true of the snapshot exactly when every key
  that was read exists in it
* `phantomsRejected_iff` — range reads are protected exactly where every key of the range
  was also read by `Get`
-/

namespace RocketFS

/-- One call on a transaction object. A failed `CHECK` ends the transaction. -/
def callStep (txn : Txn) (op : TxnOp) : Option (Txn × Reply) := (txn.call op).toOption

/-- The calls on a transaction object, with what they returned. -/
abbrev CallTrace := List (TxnOp × Reply)

/-- A call that read a key and takes part in conflict detection. -/
def pointReadOf : TxnOp × Reply → Option CFKey
  | (.get _ cf key false, .value (.ok _)) => some (cfKey cf key)
  | _ => none

/-- The key was read by a `Get` that was not excluded from conflict detection. -/
def PointRead (trace : CallTrace) (k : CFKey) : Prop := ∃ e ∈ trace, pointReadOf e = some k

/-- `GetRange` was called on the range and not excluded from conflict detection. -/
def RangeRead (trace : CallTrace) (cf : CFIndex) (startKey endKey : Bytes) : Prop :=
  ∃ fault limit reply, (TxnOp.getRange fault cf startKey endKey limit false, reply) ∈ trace

instance (trace : CallTrace) (k : CFKey) : Decidable (PointRead trace k) :=
  inferInstanceAs (Decidable (∃ e ∈ trace, pointReadOf e = some k))

theorem pointRead_snoc {trace : CallTrace} {e : TxnOp × Reply} {k : CFKey} :
    PointRead (trace ++ [e]) k ↔ PointRead trace k ∨ pointReadOf e = some k := by
  simp only [PointRead, List.mem_append, List.mem_singleton]
  constructor
  · rintro ⟨e', hmem | rfl, hread⟩
    · exact .inl ⟨e', hmem, hread⟩
    · exact .inr hread
  · rintro (⟨e', hmem, hread⟩ | hread)
    · exact ⟨e', .inl hmem, hread⟩
    · exact ⟨e, .inr rfl, hread⟩

/-! ### The read set along a run -/

theorem call_of_callStep {txn txn' : Txn} {op : TxnOp} {reply : Reply}
    (h : callStep txn op = some (txn', reply)) : txn.call op = .ok (txn', reply) := by
  unfold callStep at h
  cases hcall : txn.call op with
  | error crash => rw [hcall] at h; cases h
  | ok next => rw [hcall] at h; exact congrArg Except.ok (Option.some.inj h)

/-- A call leaves the read set alone, or records under the key it read what the snapshot
holds there. -/
theorem callStep_readSet {txn txn' : Txn} {op : TxnOp} {reply : Reply}
    (h : callStep txn op = some (txn', reply)) (k : CFKey) :
    txn'.readSet.lookup k = if pointReadOf (op, reply) = some k
      then some (.optional (txn.snapshot.view k)) else txn.readSet.lookup k := by
  have hcall := call_of_callStep h
  cases op with
  | get fault cf key exclude =>
    obtain ⟨⟨t, result⟩, hget, hpair⟩ := map_ok hcall
    obtain ⟨rfl, rfl⟩ := Prod.mk.inj hpair
    rcases Txn.get_cases hget with ⟨⟨status, rfl⟩, rfl⟩ | ⟨rfl, rfl⟩
    · cases exclude <;> rfl
    · cases exclude with
      | true => rfl
      | false =>
        simp only [pointReadOf, Bool.false_eq_true, if_false, SortedMap.lookup_insert,
          Option.some.injEq, eq_comm (a := k)]
        split_ifs with hk
        · subst hk
          rfl
        · rfl
  | getRange | put | del =>
    -- `AddReadConflictKeyRange` records nothing, and writes are not reads
    cases Txn.call_inv hcall
    rfl

section Run

variable {db : Database} {start : ℤ} {trace : CallTrace} {txn : Txn}

theorem callStep_frame {txn' : Txn} {op : TxnOp} {reply : Reply}
    (h : callStep txn op = some (txn', reply)) :
    txn'.snapshot = txn.snapshot ∧ txn'.startVersion = txn.startVersion := by
  cases Txn.call_inv (call_of_callStep h) <;> exact ⟨rfl, rfl⟩

theorem run_frame (h : Run callStep (Txn.new db start) trace txn) :
    txn.snapshot = db ∧ txn.startVersion = start := by
  induction h with
  | nil => exact ⟨rfl, rfl⟩
  | snoc _ hs ih =>
    obtain ⟨hsnapshot, hstart⟩ := callStep_frame hs
    exact ⟨hsnapshot.trans ih.1, hstart.trans ih.2⟩

/-- The read set has an entry for exactly the keys that were read, and the entry is what
the snapshot holds: a miss is stored as an empty optional. -/
theorem readSet_lookup (h : Run callStep (Txn.new db start) trace txn) (k : CFKey) :
    txn.readSet.lookup k =
      if PointRead trace k then some (.optional (db.view k)) else none := by
  induction h with
  | nil => simp [PointRead, Txn.new]
  | snoc hrun hs ih =>
    rw [callStep_readSet hs, ih, (run_frame hrun).1]
    simp only [pointRead_snoc]
    split_ifs <;> tauto

theorem readSet_isSome_iff (h : Run callStep (Txn.new db start) trace txn) (k : CFKey) :
    (txn.readSet.lookup k).isSome ↔ PointRead trace k := by
  rw [readSet_lookup h]
  split_ifs with hread <;> simp [hread]

end Run

/-! ### What the entries mean -/

/-- What `TxnBase::AddReadConflictKey` documents: the key must not exist, must exist with
any value, or must exist with the given value. -/
def ReadConstraint.Holds : ReadConstraint → Option Bytes → Prop
  | .monostate, stored => stored = none
  | .optional none, stored => stored.isSome
  | .optional (some value), stored => stored = some value

/-- What `AddReadConflictKey` stores about a key is true of the snapshot exactly when the
key exists there. -/
theorem ReadConstraint.holds_optional_self {stored : Option Bytes} :
    (ReadConstraint.optional stored).Holds stored ↔ stored.isSome := by
  cases stored <;> simp [ReadConstraint.Holds]

/-- The read set has entries for exactly the keys that were read. Its entries are true of
the snapshot exactly when every key that was read exists in it: `std::monostate` is stored
as an empty optional, which says that the key must exist. -/
theorem readConstraints_hold_iff {db : Database} {start : ℤ} {trace : CallTrace} {txn : Txn}
    (h : Run callStep (Txn.new db start) trace txn) :
    (∀ k, (txn.readSet.lookup k).isSome ↔ PointRead trace k) ∧
      ((∀ k constraint, txn.readSet.lookup k = some constraint →
          constraint.Holds (txn.snapshot.view k)) ↔
        ∀ k, PointRead trace k → (db.view k).isSome) := by
  refine ⟨readSet_isSome_iff h, ?_⟩
  rw [(run_frame h).1]
  constructor
  · intro hall k hread
    have hentry := (readSet_lookup h k).trans (if_pos hread)
    exact ReadConstraint.holds_optional_self.mp (hall k _ hentry)
  · intro hexists k constraint hentry
    rw [readSet_lookup h] at hentry
    split_ifs at hentry with hread
    obtain rfl := Option.some.inj hentry
    exact ReadConstraint.holds_optional_self.mpr (hexists k hread)

/-- A database with one inode record. -/
def oneRecord : Database := Database.empty.put kInodeCFIndex [1] [7]

/-- Two reads of one record, with a range read and a write between them. -/
def hitsTrace : CallTrace :=
  [(.get none kInodeCFIndex [1] false, .value (.ok (some [7]))),
    (.getRange none kInodeCFIndex [0] [9] 5 false, .values (.ok [[7]])),
    (.put kInodeCFIndex [2] [8], .done),
    (.get none kInodeCFIndex [1] false, .value (.ok (some [7])))]

theorem readConstraints_hold_hits :
    ∃ txn, Run callStep (Txn.new oneRecord 1) hitsTrace txn ∧
      PointRead hitsTrace (cfKey kInodeCFIndex [1]) ∧
      ∀ k constraint, txn.readSet.lookup k = some constraint →
        constraint.Holds (txn.snapshot.view k) := by
  obtain ⟨txn, hrun⟩ : ∃ txn, Run callStep (Txn.new oneRecord 1) hitsTrace txn :=
    exists_run_of_replay (hitsTrace.map Prod.fst) rfl
  refine ⟨txn, hrun, by decide, (readConstraints_hold_iff hrun).2.mpr ?_⟩
  rintro k ⟨e, he, hk⟩
  simp only [hitsTrace, List.mem_cons, List.not_mem_nil, or_false] at he
  rcases he with rfl | rfl | rfl | rfl <;> cases hk <;> decide

/-- A `Get` of a missing key records that the key must exist. -/
theorem missed_get_records_existence :
    ∃ txn, Run callStep (Txn.new Database.empty 1)
        [(.get none kInodeCFIndex [1] false, .value (.ok none))] txn ∧
      txn.readSet.lookup (cfKey kInodeCFIndex [1]) = some (.optional none) ∧
      ¬ (ReadConstraint.optional none).Holds (txn.snapshot.view (cfKey kInodeCFIndex [1])) := by
  obtain ⟨txn, hrun⟩ : ∃ txn, Run callStep (Txn.new Database.empty 1)
      [(.get none kInodeCFIndex [1] false, .value (.ok none))] txn :=
    exists_run_of_replay [.get none kInodeCFIndex [1] false] rfl
  refine ⟨txn, hrun, readSet_lookup hrun _, ?_⟩
  rw [(run_frame hrun).1]
  exact Bool.false_ne_true

/-! ### Range reads -/

/-- A transaction that has read a range is turned away by every detector that remembers a
write into the range committed in between. -/
def PhantomsRejected (trace : CallTrace) (txn : Txn) : Prop :=
  ∀ (detector : ConflictDetector) (commitVersion : ℤ) (cf : CFIndex) (startKey endKey : Bytes),
    detector.WellKeyed → detector.Apart { txn with commitVersion := commitVersion } →
    RangeRead trace cf startKey endKey →
    (∃ c ∈ detector.remembered, txn.startVersion < c.commitVersion ∧
      c.commitVersion < commitVersion ∧ ∃ key, startKey ≤ key ∧ key < endKey ∧
        (c.writeSet.lookup (cfKey cf key)).isSome) →
    detector.isConflictFree { txn with commitVersion := commitVersion } = .ok false

namespace ConflictDetector

/-- A detector that remembers one transaction. -/
def only (c : Txn) : ConflictDetector :=
  ⟨SortedMap.empty.insert c.commitVersion c, 0⟩

theorem wellKeyed_only (c : Txn) : (only c).WellKeyed := by
  intro e he
  rw [List.mem_singleton.mp he]

end ConflictDetector

section Verdict

variable {db : Database} {start commitVersion : ℤ} {trace : CallTrace} {txn : Txn}
  {detector : ConflictDetector}

/-- The verdict on a transaction in terms of the calls it made: only its `Get`s matter. -/
theorem exists_verdict (h : Run callStep (Txn.new db start) trace txn) (hpos : 0 < start)
    (hlt : start < commitVersion) (hkeyed : detector.WellKeyed)
    (hapart : detector.Apart { txn with commitVersion := commitVersion }) :
    ∃ free, detector.isConflictFree { txn with commitVersion := commitVersion } = .ok free ∧
      (free = true ↔ detector.latestPurgedVersion ≤ start ∧
        ∀ c ∈ detector.remembered, start < c.commitVersion → c.commitVersion < commitVersion →
          ∀ k, (c.writeSet.lookup k).isSome → ¬ PointRead trace k) := by
  obtain ⟨_, rfl⟩ := run_frame h
  obtain ⟨free, hfree, hiff⟩ := @ConflictDetector.exists_isConflictFree detector
    { txn with commitVersion := commitVersion } hkeyed hpos hlt hapart
  refine ⟨free, hfree, hiff.trans (and_congr_right fun _ => ?_)⟩
  refine forall₅_congr fun c _ _ _ k => imp_congr_right fun _ => ?_
  rw [← readSet_isSome_iff h, Bool.not_eq_true, ← Option.not_isSome, Bool.not_eq_true']

/-- A key that no `Get` read can be written by a transaction that commits in between. -/
theorem unread_write_unnoticed (h : Run callStep (Txn.new db start) trace txn)
    (hpos : 0 < start) {k : CFKey} (hunread : ¬ PointRead trace k) :
    (ConflictDetector.only (.writer (start + 1) k)).Apart
        { txn with commitVersion := start + 2 } ∧
      (ConflictDetector.only (.writer (start + 1) k)).isConflictFree
        { txn with commitVersion := start + 2 } = .ok true := by
  have hapart : (ConflictDetector.only (.writer (start + 1) k)).Apart
      { txn with commitVersion := start + 2 } := by
    intro c hc
    rw [List.mem_singleton.mp hc, (run_frame h).2]
    exact ⟨(Int.lt_succ start).ne', by simp [Txn.writer]⟩
  obtain ⟨free, hfree, hiff⟩ :=
    exists_verdict h hpos (by omega) (ConflictDetector.wellKeyed_only _) hapart
  refine ⟨hapart, hfree.trans (congrArg _ (hiff.mpr ⟨hpos.le, ?_⟩))⟩
  intro c hc _ _ k' hwritten
  rw [List.mem_singleton.mp hc] at hwritten
  rw [Txn.writer_lookup_isSome.mp hwritten]
  exact hunread

end Verdict

/-- Range reads are protected against phantoms exactly where every key of the range was also
read by `Get`: the range itself is recorded nowhere. -/
theorem phantomsRejected_iff {db : Database} {start : ℤ} {trace : CallTrace} {txn : Txn}
    (hpos : 0 < start) (h : Run callStep (Txn.new db start) trace txn) :
    PhantomsRejected trace txn ↔
      ∀ cf startKey endKey, RangeRead trace cf startKey endKey →
        ∀ key, startKey ≤ key → key < endKey → PointRead trace (cfKey cf key) := by
  have hstartVersion := (run_frame h).2
  constructor
  · intro hrejected cf startKey endKey hrange key hlower hupper
    by_contra hunread
    obtain ⟨hapart, hfree⟩ := unread_write_unnoticed h hpos hunread
    have hphantom : start < (Txn.writer (start + 1) (cfKey cf key)).commitVersion ∧
        (Txn.writer (start + 1) (cfKey cf key)).commitVersion < start + 2 := by
      simp [Txn.writer]
    have hfalse := hrejected _ (start + 2) cf startKey endKey
      (ConflictDetector.wellKeyed_only _) hapart hrange
      ⟨_, List.mem_singleton_self _, hstartVersion ▸ hphantom.1, hphantom.2, key, hlower, hupper,
        Txn.writer_lookup_isSome.mpr rfl⟩
    rw [hfree] at hfalse
    cases hfalse
  · rintro hread detector commitVersion cf startKey endKey hkeyed hapart hrange
      ⟨c, hc, hstart, hcommit, key, hlower, hupper, hwritten⟩
    rw [hstartVersion] at hstart
    obtain ⟨free, hfree, hiff⟩ := exists_verdict h hpos (hstart.trans hcommit) hkeyed hapart
    cases free with
    | false => exact hfree
    | true =>
      obtain ⟨_, hnone⟩ := hiff.mp rfl
      exact absurd (hread cf startKey endKey hrange key hlower hupper)
        (hnone c hc hstart hcommit _ hwritten)

/-- A read of the range that holds one key, and of that key. -/
def coveredRangeTrace : CallTrace :=
  [(.getRange none kDEntCFIndex [1] [1, 0] 5 false, .values (.ok [])),
    (.get none kDEntCFIndex [1] false, .value (.ok none))]

theorem phantomsRejected_coveredRange :
    ∃ txn, Run callStep (Txn.new Database.empty 1) coveredRangeTrace txn ∧
      RangeRead coveredRangeTrace kDEntCFIndex [1] [1, 0] ∧
      PhantomsRejected coveredRangeTrace txn := by
  obtain ⟨txn, hrun⟩ : ∃ txn, Run callStep (Txn.new Database.empty 1) coveredRangeTrace txn :=
    exists_run_of_replay (coveredRangeTrace.map Prod.fst) rfl
  refine ⟨txn, hrun, ⟨none, 5, _, List.mem_cons_self⟩,
    (phantomsRejected_iff (by decide) hrun).mpr ?_⟩
  rintro cf startKey endKey ⟨fault, limit, reply, hmem⟩ key hlower hupper
  simp only [coveredRangeTrace, List.mem_cons, Prod.mk.injEq, TxnOp.getRange.injEq] at hmem
  obtain ⟨⟨-, rfl, rfl, rfl, -⟩, -⟩ | ⟨⟨⟩, -⟩ | hnil := hmem
  · -- the range holds no other key
    obtain ⟨rest, rfl, hrest⟩ := exists_append_of_le_of_lt (a := [1]) (x := [0]) hlower hupper
    obtain rfl : rest = [] := by
      cases rest with
      | nil => rfl
      | cons b tail => simp [List.cons_lt_cons_iff] at hrest
    decide
  · cases hnil

/-- A read of a range that no `Get` covers. -/
def bareRangeTrace : CallTrace :=
  [(.getRange none kDEntCFIndex [1] [2] 5 false, .values (.ok []))]

/-- A transaction reads an empty range, another one commits a record into it, and the first
is declared free of conflicts. -/
theorem phantom_unnoticed :
    ∃ txn, Run callStep (Txn.new Database.empty 1) bareRangeTrace txn ∧
      RangeRead bareRangeTrace kDEntCFIndex [1] [2] ∧
      ∃ detector : ConflictDetector, detector.WellKeyed ∧
        detector.Apart { txn with commitVersion := 3 } ∧
        (∃ c ∈ detector.remembered, txn.startVersion < c.commitVersion ∧ c.commitVersion < 3 ∧
          (c.writeSet.lookup (cfKey kDEntCFIndex [1])).isSome) ∧
        detector.isConflictFree { txn with commitVersion := 3 } = .ok true := by
  obtain ⟨txn, hrun⟩ : ∃ txn, Run callStep (Txn.new Database.empty 1) bareRangeTrace txn :=
    exists_run_of_replay (bareRangeTrace.map Prod.fst) rfl
  have hunread : ¬ PointRead bareRangeTrace (cfKey kDEntCFIndex [1]) := by decide
  obtain ⟨hapart, hfree⟩ := unread_write_unnoticed hrun (by decide) hunread
  refine ⟨txn, hrun, ⟨none, 5, _, List.mem_cons_self⟩, _, ConflictDetector.wellKeyed_only _,
    hapart, ⟨_, List.mem_singleton_self _, ?_, by decide, by decide⟩, hfree⟩
  rw [(run_frame hrun).2]
  decide

end RocketFS
