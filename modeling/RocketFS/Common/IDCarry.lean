import Mathlib.Data.Finset.Card
import Mathlib.Order.Interval.Finset.Nat
import RocketFS.Common.IDSerial

/-!
# Increments and carries of an id generator

`Next` adds one to the word, and the lowest field of the word is the timestamp. So the
call advances the timestamp and not the auto-increment, and when the timestamp is at its
largest value the carry reaches the node id, where the checks find it. The word has
changed by then, and `Update` makes the same checks before it would set it right.

## Main definitions

* `AdvancesAutoIncrement` — what `Next` is meant to do
* `Recovers` — a rejected `Next` does no harm
* `HasRoom` — the next word passes the checks

## Main results

* `next_never_advances_autoIncrement` — `Next` never does what it is meant to do
* `rejected_next_recovers_iff` — a rejected `Next` always does harm
-/

namespace RocketFS

/-! ### `Next` advances the timestamp -/

/-- No call of the trace has stored a new word. -/
def NothingStored (trace : IDTrace) : Prop := ∀ e ∈ trace, e.2 ≠ .updated (.ok true)

/-- The calls of `Next` in a trace, whether they returned an id or not. -/
def nextCount (trace : IDTrace) : ℕ := trace.countP fun e => e.1 = .next

/-- The `Next` call of the generator advances the auto-increment of the id before it, of zero
if there is none, and leaves the other fields as the last `Update` has set them. -/
def AdvancesAutoIncrement (gen : IDGen) (timestampSeconds : UInt32) (issued : List UInt64) :
    Prop :=
  ∃ id, gen.next.1 = .ok id ∧
    (ID.ofRaw id).timestampSeconds.toNat = timestampSeconds.toNat ∧
    (ID.ofRaw id).nodeId.toNat = gen.nodeId.toNat ∧
    (ID.ofRaw id).clockSequence.toNat = gen.clockSequence.toNat ∧
    (ID.ofRaw id).autoIncrementId.toNat =
      (issued.getLast?.elim 0 fun previous => (ID.ofRaw previous).autoIncrementId.toNat) + 1

section SinceUpdate

variable {gen s : IDGen} {trace : IDTrace}

/-- The words behind a generator's that pass the checks, among the next `n`. -/
def IDGen.passing (gen : IDGen) (n : ℕ) : Finset ℕ :=
  (Finset.range n).filter fun j => gen.Passes ((gen.id.toNat + j + 1) % 2 ^ 64)

theorem IDGen.passing_succ (gen : IDGen) (n : ℕ) :
    (gen.passing (n + 1)).card = (gen.passing n).card +
      if gen.Passes ((gen.id.toNat + n + 1) % 2 ^ 64) then 1 else 0 := by
  rw [passing, passing, Finset.range_add_one, Finset.filter_insert]
  split_ifs
  · rw [Finset.card_insert_of_notMem (by simp)]
  · rfl

/-- Until a new word is stored, the word counts the calls of `Next`, and those return an id
that find a word that passes. -/
theorem words_of_nothingStored (h : Run serialStep gen trace s) (hstored : NothingStored trace) :
    s.id.toNat = (gen.id.toNat + nextCount trace) % 2 ^ 64 ∧
      (issuedIds trace).length = (gen.passing (nextCount trace)).card := by
  induction h with
  | nil => exact ⟨(Nat.mod_eq_of_lt gen.id.toNat_lt).symm, rfl⟩
  | @snoc trace s s' call result hrun hs ih =>
    obtain ⟨hword, hcount⟩ := ih fun e he => hstored e (List.mem_append_left _ he)
    have hlast : result ≠ .updated (.ok true) :=
      hstored (call, result) (List.mem_append_right _ (List.mem_singleton.mpr rfl))
    obtain ⟨rawId, rfl⟩ := exists_withId_run hrun
    rw [IDGen.withId_id] at hword
    have hnext : (rawId + 1).toNat = (gen.id.toNat + nextCount trace + 1) % 2 ^ 64 := by
      rw [UInt64.toNat_add, hword, UInt64.toNat_one, Nat.mod_add_mod]
    rw [issuedIds] at hcount
    simp only [nextCount, issuedIds, List.countP_append, List.filterMap_append,
      List.length_append] at hcount hword hnext ⊢
    cases serialStep_inv hs with
    | issued hpasses =>
      rw [IDGen.withId_id, IDGen.withId_passes, hnext] at hpasses
      simp only [IDGen.withId_id, hnext, hcount, List.countP_singleton, decide_true, if_true]
      refine ⟨rfl, ?_⟩
      rw [IDGen.passing_succ, if_pos hpasses]
      rfl
    | rejected hpasses crash =>
      rw [IDGen.withId_id, IDGen.withId_passes, hnext] at hpasses
      simp only [IDGen.withId_id, hnext, hcount, List.countP_singleton, decide_true, if_true]
      refine ⟨rfl, ?_⟩
      rw [IDGen.passing_succ, if_neg hpasses]
      rfl
    | kept => exact ⟨hword, hcount⟩
    | moved => exact absurd rfl hlast
    | refused => exact ⟨hword, hcount⟩

/-- A word with the bits of the generator and a small auto-increment passes. -/
theorem IDGen.passes_tag_add (hnode : gen.nodeId.toNat < 2 ^ 4)
    (hclock : gen.clockSequence.toNat < 2 ^ 4) {timestamp auto : ℕ}
    (htimestamp : timestamp < 2 ^ 32) (hauto : auto < kMaxAutoIncrementID) :
    gen.Passes (gen.tag + timestamp + auto * 2 ^ 40) := by
  unfold Passes tag
  refine ⟨?_, ?_, ?_⟩ <;> omega

theorem IDGen.tag_add_le (hnode : gen.nodeId.toNat < 2 ^ 4)
    (hclock : gen.clockSequence.toNat < 2 ^ 4) : gen.tag + 2 ^ 32 ≤ 2 ^ 40 := by
  unfold tag
  omega

/-- An interval of calls that all return an id. -/
theorem IDGen.sub_le_card_passing {a b n : ℕ}
    (h : ∀ j, a ≤ j → j < b → j < n ∧ gen.Passes ((gen.id.toNat + j + 1) % 2 ^ 64)) :
    b - a ≤ (gen.passing n).card := by
  have hsub : Finset.Ico a b ⊆ gen.passing n := by
    intro j hj
    obtain ⟨hle, hlt⟩ := Finset.mem_Ico.mp hj
    rw [passing, Finset.mem_filter, Finset.mem_range]
    exact h j hle hlt
  rw [← Nat.card_Ico]
  exact Finset.card_le_card hsub

/-- Of 2 ^ 40 calls of `Next` after an `Update`, more than a second is promised return an
id: the first 2 ^ 31 if the timestamp has room for them, or else the last 2 ^ 31, when the
word has come round to the bits of the generator again. -/
theorem IDGen.many_passing (hnode : gen.nodeId.toNat < 2 ^ 4)
    (hclock : gen.clockSequence.toNat < 2 ^ 4) {timestamp : ℕ} (htimestamp : timestamp < 2 ^ 32)
    (hid : gen.id.toNat = gen.tag + timestamp) {n : ℕ} (hn : 2 ^ 40 ≤ n + 1) :
    kMaxAutoIncrementID - 1 ≤ (gen.passing n).card := by
  have htag := gen.tag_add_le hnode hclock
  by_cases hroom : timestamp < 2 ^ 31
  · have hcard : 2 ^ 31 - 1 - 0 ≤ (gen.passing n).card := by
      refine gen.sub_le_card_passing fun j _ hj => ⟨by omega, ?_⟩
      have hpasses := gen.passes_tag_add hnode hclock (show timestamp + j + 1 < 2 ^ 32 by omega)
        (show 0 < kMaxAutoIncrementID by decide)
      rw [Nat.mod_eq_of_lt (by omega), hid]
      rwa [Nat.zero_mul, Nat.add_zero, ← Nat.add_assoc, ← Nat.add_assoc] at hpasses
    exact le_trans (by decide) hcard
  · have hcard : 2 ^ 40 - 1 - (2 ^ 40 - timestamp - 1) ≤ (gen.passing n).card := by
      refine gen.sub_le_card_passing fun j hle hj => ⟨by omega, ?_⟩
      -- the timestamp has started again at zero, and the auto-increment is one
      have hpasses := gen.passes_tag_add hnode hclock
        (show timestamp + j + 1 - 2 ^ 40 < 2 ^ 32 by omega) (show 1 < kMaxAutoIncrementID by decide)
      have heq : gen.id.toNat + j + 1 = gen.tag + (timestamp + j + 1 - 2 ^ 40) + 1 * 2 ^ 40 := by
        omega
      rwa [heq, Nat.mod_eq_of_lt (by omega)]
    have hlarge : 2 ^ 31 ≤ 2 ^ 40 - 1 - (2 ^ 40 - timestamp - 1) := by omega
    exact le_trans (le_trans (by decide) hlarge) hcard

/-- Fewer than 2 ^ 40 increments do not bring a timestamp back under the same bits of the
generator. -/
theorem IDGen.timestamp_ne_of_passes {timestamp n : ℕ} (hn : n + 1 < 2 ^ 40)
    (hpasses : gen.Passes (gen.tag + timestamp + n + 1)) :
    (gen.tag + timestamp + n + 1) % 2 ^ 32 ≠ timestamp := by
  obtain ⟨hnode, hclock, _⟩ := hpasses
  unfold tag at *
  omega

end SinceUpdate

/-- In every run of calls, on any generator: as long as fewer ids have been returned since
the last `Update` that stored a word than the auto-increment has room for, no `Next` returns
an id that carries the timestamp of that `Update`; so none advances the auto-increment
alone. -/
theorem next_never_advances_autoIncrement {gen s : IDGen} {before after : IDTrace}
    {timestampSeconds : UInt32}
    (h : Run serialStep gen (before ++ (.update timestampSeconds, .updated (.ok true)) :: after) s)
    (hstored : NothingStored after) (hfew : (issuedIds after).length < kMaxAutoIncrementID - 1) :
    ¬ AdvancesAutoIncrement s timestampSeconds (issuedIds after) := by
  rintro ⟨id, hnext, htimestamp, _, _, _⟩
  obtain ⟨s₁, s₂, _, hs, hafter⟩ := h.step_at
  obtain ⟨hword, hcount⟩ := words_of_nothingStored hafter hstored
  have hlt : timestampSeconds.toNat < 2 ^ 32 := timestampSeconds.toNat_lt
  have hstep := s.next_cases
  rw [hnext] at hstep
  cases serialStep_inv hs with
  | @moved _ rawId hpasses _ hraw =>
    obtain ⟨hnode, hclock, _⟩ := hpasses
    have hnode : s₁.nodeId.toNat < 2 ^ 4 := hnode ▸ Nat.mod_lt _ (by decide)
    have hclock : s₁.clockSequence.toNat < 2 ^ 4 := hclock ▸ Nat.mod_lt _ (by decide)
    -- 2 ^ 40 calls would have returned more ids
    have hcalls : nextCount after + 1 < 2 ^ 40 := by
      by_contra hmany
      have hmore := (s₁.withId rawId).many_passing hnode hclock hlt hraw (not_lt.mp hmany)
      omega
    obtain ⟨raw, rfl⟩ := exists_withId_run hafter
    cases hstep with
    | issued hpasses =>
      have htag := s₁.tag_add_le hnode hclock
      have hvalue : (raw + 1).toNat = s₁.tag + timestampSeconds.toNat + nextCount after + 1 := by
        simp only [IDGen.withId_id] at hword
        rw [UInt64.toNat_add, hword, hraw, UInt64.toNat_one, Nat.mod_add_mod,
          Nat.mod_eq_of_lt (by omega)]
      rw [ID.toNat_timestampSeconds, IDGen.withId_id, hvalue] at htimestamp
      rw [IDGen.withId_id, hvalue] at hpasses
      exact s₁.timestamp_ne_of_passes hcalls hpasses htimestamp

/-- A generator that starts at 5 has returned 6; the id it returns next does not carry 5. -/
theorem next_never_advances_afterFive :
    ∃ s, Run serialStep (IDGen.blank 0 0)
        ([] ++ (.update 5, .updated (.ok true)) :: [(.next, .id (.ok 6))]) s ∧
      ¬ AdvancesAutoIncrement s 5 [6] := by
  obtain ⟨s, hrun⟩ : ∃ s, Run serialStep (IDGen.blank 0 0)
      ([] ++ (.update 5, .updated (.ok true)) :: [(.next, .id (.ok 6))]) s :=
    exists_run_of_replay [.update 5, .next] rfl
  refine ⟨s, hrun, next_never_advances_autoIncrement hrun ?_ (by decide)⟩
  intro e he
  rw [List.mem_singleton.mp he]
  exact fun heq => by cases heq

/-- The first id after the constructor's `Update(5)` has timestamp 6 and auto-increment 0. -/
theorem first_next_advances_timestamp :
    ∃ gen, IDGen.new 5 0 0 = .ok gen ∧ gen.next.1 = .ok 6 ∧
      (ID.ofRaw 6).timestampSeconds = 6 ∧ (ID.ofRaw 6).autoIncrementId = 0 ∧
      ¬ AdvancesAutoIncrement gen 5 [] := by
  refine ⟨⟨0, 0, 5⟩, rfl, rfl, rfl, rfl, ?_⟩
  rintro ⟨id, hnext, htimestamp, _⟩
  have hid : id = 6 := (Except.ok.inj hnext).symm
  subst hid
  exact absurd htimestamp (by decide)

/-! ### A rejected `Next` -/

/-- If `Next` is rejected, the generator is as it was, and an `Update` with a later timestamp
returns and lets the following `Next` return. -/
def Recovers (gen : IDGen) : Prop :=
  ∀ crash, gen.next.1 = .error crash → gen.next.2 = gen ∧
    ∀ timestampSeconds : UInt32,
      (ID.ofRaw gen.next.2.id).timestampSeconds.toNat < timestampSeconds.toNat →
        ∃ gen', gen.next.2.update timestampSeconds = (.ok true, gen') ∧
          ∃ id, gen'.next.1 = .ok id

/-- The next word has no bit between the timestamp and the auto-increment, and the
auto-increment is in its range. -/
def HasRoom (gen : IDGen) : Prop :=
  (gen.id.toNat + 1) % 2 ^ 64 % 2 ^ 40 < 2 ^ 32 ∧
    (gen.id.toNat + 1) % 2 ^ 64 / 2 ^ 40 < kMaxAutoIncrementID

theorem IDGen.passes_iff {gen : IDGen} (hnode : gen.nodeId = 0) (hclock : gen.clockSequence = 0)
    (rawId : ℕ) :
    gen.Passes rawId ↔ rawId % 2 ^ 40 < 2 ^ 32 ∧ rawId / 2 ^ 40 < kMaxAutoIncrementID := by
  rw [Passes, hnode, hclock]
  change _ = 0 ∧ _ = 0 ∧ _ ↔ _
  omega

/-- In every state that calls can bring a generator to, a `Next` can be recovered from only
where it is not rejected: a rejected one has changed the word, and every `Update` that
follows it throws. -/
theorem rejected_next_recovers_iff {timestampSeconds : UInt32} {nodeId clockSequence : UInt8}
    {gen s : IDGen} {trace : IDTrace}
    (hnew : IDGen.new timestampSeconds nodeId clockSequence = .ok gen)
    (h : Run serialStep gen trace s) :
    (Recovers s ↔ HasRoom s) ∧
      (¬ HasRoom s → s.next.2 ≠ s ∧
        ∀ later, ∃ crash, s.next.2.update later = (.error crash, s.next.2)) := by
  -- all generators that were built are those of node 0 and clock sequence 0
  obtain ⟨rfl, rfl⟩ := (IDGen.new_ok_iff timestampSeconds nodeId clockSequence).mp ⟨gen, hnew⟩
  obtain ⟨hcounts, _⟩ := IDGen.counts_new hnew
  obtain ⟨rawId, rfl⟩ := exists_withId_run h
  have hvalue : (rawId + 1).toNat = (rawId.toNat + 1) % 2 ^ 64 := by
    rw [UInt64.toNat_add, UInt64.toNat_one]
  have hroom : (gen.withId rawId).Passes (rawId + 1).toNat ↔ HasRoom (gen.withId rawId) := by
    rw [hvalue]
    exact IDGen.passes_iff hcounts.nodeId hcounts.clockSequence _
  -- a rejected call leaves the incremented word behind
  have hrejected : ¬ HasRoom (gen.withId rawId) → ∃ crash,
      (gen.withId rawId).next = (.error crash, gen.withId (rawId + 1)) ∧
        gen.withId (rawId + 1) ≠ gen.withId rawId := by
    intro hnot
    obtain ⟨crash, hnext⟩ := IDGen.next_of_not_passes (mt hroom.mp hnot)
    refine ⟨crash, hnext, fun heq => ?_⟩
    have hid : rawId + 1 = rawId := congrArg IDGen.id heq
    simp at hid
  refine ⟨⟨fun hrecovers => ?_, fun hhas => ?_⟩, fun hnot => ?_⟩
  · by_contra hnot
    obtain ⟨crash, hnext, hmoved⟩ := hrejected hnot
    obtain ⟨hsame, _⟩ := hrecovers crash (by rw [hnext])
    rw [hnext] at hsame
    exact hmoved hsame
  · -- nothing is rejected
    intro crash hcrash
    rw [IDGen.next_of_passes (hroom.mpr hhas)] at hcrash
    cases hcrash
  · obtain ⟨crash, hnext, hmoved⟩ := hrejected hnot
    rw [hnext]
    refine ⟨hmoved, fun later => ?_⟩
    exact IDGen.update_of_not_passes (mt hroom.mp hnot) later

/-- A new generator has room, and a `Next` on it is not rejected. -/
theorem rejected_next_recovers_afterFive :
    ∃ s, Run serialStep ⟨0, 0, 5⟩ [(.next, .id (.ok 6))] s ∧ Recovers s := by
  have hnew : IDGen.new 5 0 0 = .ok ⟨0, 0, 5⟩ := rfl
  obtain ⟨s, hrun, hid⟩ : ∃ s, Run serialStep ⟨0, 0, 5⟩ [(.next, .id (.ok 6))] s ∧ s.id = 6 :=
    exists_run_of_replay_eq [.next] _ rfl
  refine ⟨s, hrun, (rejected_next_recovers_iff hnew hrun).1.mpr ?_⟩
  rw [HasRoom, hid]
  decide

/-- At the last timestamp `Next` carries into the node id: it throws, and so does the
`Update` that follows. -/
theorem rejected_next_poisons :
    ∃ gen crash gen', IDGen.new 0xFFFFFFFF 0 0 = .ok gen ∧ gen.next = (.error crash, gen') ∧
      gen' ≠ gen ∧ (ID.ofRaw gen'.id).timestampSeconds = 0 ∧
      gen'.update 5 = (.error (.check "(id.node_id) == (node_id_)"), gen') ∧ ¬ Recovers gen := by
  refine ⟨⟨0, 0, 0xFFFFFFFF⟩, .check "(id.node_id) == (node_id_)", ⟨0, 0, 0x100000000⟩, rfl, rfl,
    by decide, rfl, rfl, fun hrecovers => ?_⟩
  obtain ⟨hsame, _⟩ := hrecovers _ rfl
  exact absurd hsame (by decide)

end RocketFS
