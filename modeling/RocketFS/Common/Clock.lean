import RocketFS.Common.IDGen

/-!
# From the clock to the timestamps of ids

Before each `Update`, `IDGenMgr` divides the nanoseconds of the clock by
`kMsToUs * kUsToNs` and subtracts the epoch, which is in seconds. The quotient is in
milliseconds, so the difference wraps around in the 32 bits of a timestamp every 2 ^ 32
milliseconds, and a clock that is decades before the epoch passes the check.

## Main definitions

* `IDGenMgr.sinceEpoch` — the difference, before it is narrowed
* `IDGenMgr.roundStart` — the readings at which the timestamps begin again at 0
* `AfterEpoch` — the clock readings of the 2 ^ 32 seconds after the epoch

## Main results

* `timestamps_in_seconds_iff` — which readings are converted as they should be
-/

namespace RocketFS

namespace IDGenMgr

/-- The quotient less the epoch, as a number. -/
def sinceEpoch (nowNs : Int64) : ℤ := nowNs.toInt.tdiv (10 ^ 6) - kEpochTimestampSeconds.toInt

/-- The first nanosecond of a round of 2 ^ 32 milliseconds. The rounds are counted from the
millisecond that has the number of the epoch. -/
def roundStart (round : ℤ) : ℤ := (kEpochTimestampSeconds.toInt + round * 2 ^ 32) * 10 ^ 6

variable {nowNs nowNs' : Int64}

theorem toInt_div_eq (nowNs : Int64) :
    (nowNs / (1000 * 1000)).toInt = nowNs.toInt.tdiv (10 ^ 6) := by
  rw [Int64.toInt_div_of_ne_right _ _ (by decide)]
  rfl

theorem check_iff :
    kEpochTimestampSeconds < nowNs / (1000 * 1000) ↔ 0 < sinceEpoch nowNs := by
  rw [Int64.lt_iff_toInt_lt, toInt_div_eq, sinceEpoch, sub_pos]

/-- A reading is refused when the difference is not positive. -/
theorem timestampSeconds_of_nonpos (h : sinceEpoch nowNs ≤ 0) :
    timestampSeconds nowNs =
      .error (.check "(current_timestamp_seconds) > (kEpochTimestampSeconds)") := by
  have hcheck : ¬ kEpochTimestampSeconds < nowNs / (1000 * 1000) := by
    rw [check_iff]
    exact not_lt.mpr h
  simp only [timestampSeconds, hcheck, decide_false]
  rfl

theorem sinceEpoch_nonpos_iff :
    sinceEpoch nowNs ≤ 0 ↔ nowNs.toInt < (kEpochTimestampSeconds.toInt + 1) * 10 ^ 6 := by
  have hepoch : kEpochTimestampSeconds.toInt = 1742256000 := rfl
  rw [sinceEpoch]
  by_cases hsign : 0 ≤ nowNs.toInt
  · rw [Int.tdiv_eq_ediv_of_nonneg hsign]
    omega
  · -- the division is rounded towards zero
    have hneg : (-nowNs.toInt).tdiv (10 ^ 6) = -nowNs.toInt / 10 ^ 6 :=
      Int.tdiv_eq_ediv_of_nonneg (by omega)
    rw [Int.neg_tdiv] at hneg
    omega

/-- The conversion of a non-negative `int64_t` to `uint32_t`. -/
theorem toNat_narrowed {d : Int64} (h : 0 ≤ d.toInt) :
    (d.toUInt64.toUInt32.toNat : ℤ) = d.toInt % 2 ^ 32 := by
  have hnonneg : 0 ≤ d := by
    rw [Int64.le_iff_toInt_le]
    exact h
  have hvalue : d.toUInt64.toNat = d.toInt.toNat := Int64.toNat_toUInt64_of_le hnonneg
  rw [UInt64.toNat_toUInt32, hvalue]
  omega

/-- Otherwise the timestamp is the rest of the difference modulo 2 ^ 32. -/
theorem timestampSeconds_of_pos (h : 0 < sinceEpoch nowNs) :
    ∃ timestamp, timestampSeconds nowNs = .ok timestamp ∧
      (timestamp.toNat : ℤ) = sinceEpoch nowNs % 2 ^ 32 := by
  have hcheck : kEpochTimestampSeconds < nowNs / (1000 * 1000) := check_iff.mpr h
  have hepoch : kEpochTimestampSeconds.toInt = 1742256000 := rfl
  have hdiff : (nowNs / (1000 * 1000) - kEpochTimestampSeconds).toInt = sinceEpoch nowNs := by
    have hupper := (nowNs / (1000 * 1000)).toInt_lt
    rw [Int64.toInt_sub, toInt_div_eq] at *
    rw [sinceEpoch] at *
    exact Int.bmod_eq_of_le (by omega) (by omega)
  refine ⟨(nowNs / (1000 * 1000) - kEpochTimestampSeconds).toUInt64.toUInt32, ?_, ?_⟩
  · simp only [timestampSeconds, hcheck, decide_true]
    rfl
  · rw [toNat_narrowed (by rw [hdiff]; exact h.le), hdiff]

end IDGenMgr

/-- The reading is in the 2 ^ 32 seconds that follow the epoch; they are more than a hundred
years. -/
def AfterEpoch (nowNs : Int64) : Prop :=
  kEpochTimestampSeconds.toInt * 10 ^ 9 ≤ nowNs.toInt ∧
    nowNs.toInt < (kEpochTimestampSeconds.toInt + 2 ^ 32) * 10 ^ 9

instance (nowNs : Int64) : Decidable (AfterEpoch nowNs) := inferInstanceAs (Decidable (_ ∧ _))

/-- The reading reaches `Update` as the seconds since the epoch. -/
def ConvertedToSeconds (nowNs : Int64) : Prop :=
  ∃ timestamp, IDGenMgr.timestampSeconds nowNs = .ok timestamp ∧
    (timestamp.toNat : ℤ) = nowNs.toInt / 10 ^ 9 - kEpochTimestampSeconds.toInt

/-- The two readings reach `Update` in their order. -/
def ConvertedInOrder (nowNs nowNs' : Int64) : Prop :=
  ∃ timestamp timestamp', IDGenMgr.timestampSeconds nowNs = .ok timestamp ∧
    IDGenMgr.timestampSeconds nowNs' = .ok timestamp' ∧ timestamp ≤ timestamp'

section AfterEpoch

open IDGenMgr

variable {nowNs nowNs' : Int64}

theorem AfterEpoch.sinceEpoch_eq (h : AfterEpoch nowNs) :
    sinceEpoch nowNs = nowNs.toInt / 10 ^ 6 - kEpochTimestampSeconds.toInt ∧
      0 < sinceEpoch nowNs := by
  have hepoch : kEpochTimestampSeconds.toInt = 1742256000 := rfl
  obtain ⟨hlow, _⟩ := h
  have hdiv : nowNs.toInt.tdiv (10 ^ 6) = nowNs.toInt / 10 ^ 6 :=
    Int.tdiv_eq_ediv_of_nonneg (by omega)
  rw [sinceEpoch, hdiv]
  refine ⟨rfl, ?_⟩
  omega

/-- A reading is converted to seconds where milliseconds and seconds agree modulo 2 ^ 32. -/
theorem convertedToSeconds_iff (h : AfterEpoch nowNs) :
    ConvertedToSeconds nowNs ↔ (2 ^ 32 : ℤ) ∣ nowNs.toInt / 10 ^ 6 - nowNs.toInt / 10 ^ 9 := by
  have hepoch : kEpochTimestampSeconds.toInt = 1742256000 := rfl
  obtain ⟨hdiff, hpos⟩ := h.sinceEpoch_eq
  obtain ⟨timestamp, hok, hvalue⟩ := timestampSeconds_of_pos hpos
  obtain ⟨hlow, hhigh⟩ := h
  rw [hdiff] at hvalue
  -- the seconds since the epoch are a rest modulo 2 ^ 32
  have hseconds : 0 ≤ nowNs.toInt / 10 ^ 9 - kEpochTimestampSeconds.toInt ∧
      nowNs.toInt / 10 ^ 9 - kEpochTimestampSeconds.toInt < 2 ^ 32 := by
    omega
  constructor
  · rintro ⟨timestamp', hok', hseconds'⟩
    obtain rfl : timestamp = timestamp' := Except.ok.inj (hok.symm.trans hok')
    rw [hvalue] at hseconds'
    omega
  · intro hdvd
    refine ⟨timestamp, hok, ?_⟩
    rw [hvalue]
    omega

/-- Two readings are converted to the rests of their milliseconds, and so they keep their order
where the rests do. -/
theorem convertedInOrder_iff (h : AfterEpoch nowNs) (h' : AfterEpoch nowNs') :
    ConvertedInOrder nowNs nowNs' ↔
      sinceEpoch nowNs % 2 ^ 32 ≤ sinceEpoch nowNs' % 2 ^ 32 := by
  obtain ⟨timestamp, hok, hvalue⟩ := timestampSeconds_of_pos h.sinceEpoch_eq.2
  obtain ⟨timestamp', hok', hvalue'⟩ := timestampSeconds_of_pos h'.sinceEpoch_eq.2
  rw [← hvalue, ← hvalue', Nat.cast_le]
  constructor
  · rintro ⟨t, t', ht, ht', hle⟩
    obtain rfl : timestamp = t := Except.ok.inj (hok.symm.trans ht)
    obtain rfl : timestamp' = t' := Except.ok.inj (hok'.symm.trans ht')
    exact hle
  · intro hle
    exact ⟨timestamp, timestamp', hok, hok', hle⟩

theorem AfterEpoch.between {t : Int64} (h : AfterEpoch nowNs) (h' : AfterEpoch nowNs')
    (hle : nowNs.toInt ≤ t.toInt) (hle' : t.toInt ≤ nowNs'.toInt) : AfterEpoch t :=
  ⟨h.1.trans hle, hle'.trans_lt h'.2⟩

/-- Where a round begins between two readings, two readings between them are converted in the
wrong order: the last one of the round before, and the first one of the new round. -/
theorem exists_not_convertedInOrder (h : AfterEpoch nowNs) (h' : AfterEpoch nowNs') {round : ℤ}
    (hlt : nowNs.toInt < roundStart round) (hle : roundStart round ≤ nowNs'.toInt) :
    ∃ t t', nowNs ≤ t ∧ t ≤ t' ∧ t' ≤ nowNs' ∧ ¬ ConvertedInOrder t t' := by
  have hepoch : kEpochTimestampSeconds.toInt = 1742256000 := rfl
  have hlow := nowNs.le_toInt
  have hhigh := nowNs'.toInt_lt
  obtain ⟨t, ht⟩ : ∃ t : Int64, t.toInt = roundStart round - 1 :=
    ⟨.ofInt _, Int64.toInt_ofInt_of_le (by omega) (by omega)⟩
  obtain ⟨t', ht'⟩ : ∃ t' : Int64, t'.toInt = roundStart round :=
    ⟨.ofInt _, Int64.toInt_ofInt_of_le (by omega) (by omega)⟩
  have hafter : AfterEpoch t := h.between h' (by omega) (by omega)
  have hafter' : AfterEpoch t' := h.between h' (by omega) (by omega)
  refine ⟨t, t', ?_, ?_, ?_, ?_⟩
  · rw [Int64.le_iff_toInt_le]
    omega
  · rw [Int64.le_iff_toInt_le]
    omega
  · rw [Int64.le_iff_toInt_le]
    omega
  · rw [convertedInOrder_iff hafter hafter', hafter.sinceEpoch_eq.1, hafter'.sinceEpoch_eq.1, ht,
      ht', roundStart]
    omega

/-- All readings from one to another keep their order exactly where no round of 2 ^ 32
milliseconds begins between the two. -/
theorem forall_convertedInOrder_iff (h : AfterEpoch nowNs) (h' : AfterEpoch nowNs') :
    (∀ t t', nowNs ≤ t → t ≤ t' → t' ≤ nowNs' → ConvertedInOrder t t') ↔
      ∀ round, ¬ (nowNs.toInt < roundStart round ∧ roundStart round ≤ nowNs'.toInt) := by
  constructor
  · rintro hall round ⟨hlt, hle⟩
    obtain ⟨t, t', hlow, hmid, hhigh, hnot⟩ := exists_not_convertedInOrder h h' hlt hle
    exact hnot (hall t t' hlow hmid hhigh)
  · intro hnone t t' hlow hmid hhigh
    rw [Int64.le_iff_toInt_le] at hlow hmid hhigh
    have hafter : AfterEpoch t := h.between h' hlow (hmid.trans hhigh)
    have hafter' : AfterEpoch t' := h.between h' (hlow.trans hmid) hhigh
    rw [convertedInOrder_iff hafter hafter', hafter.sinceEpoch_eq.1, hafter'.sinceEpoch_eq.1]
    -- the round of the second reading has begun before the first
    have hround := hnone ((t'.toInt / 10 ^ 6 - kEpochTimestampSeconds.toInt) / 2 ^ 32)
    rw [roundStart] at hround
    omega

end AfterEpoch

/-- The conversions of `IDGenMgr`, for every clock reading: after the epoch, a reading reaches
`Update` as the seconds since the epoch exactly where the milliseconds and the seconds agree
modulo 2 ^ 32, and all readings from one to another keep their order exactly where no round of
2 ^ 32 milliseconds begins between the two; before the epoch, a reading is refused exactly up to
the millisecond with the number the epoch has in seconds. -/
theorem timestamps_in_seconds_iff (nowNs nowNs' : Int64) :
    (AfterEpoch nowNs → (ConvertedToSeconds nowNs ↔
      (2 ^ 32 : ℤ) ∣ nowNs.toInt / 10 ^ 6 - nowNs.toInt / 10 ^ 9)) ∧
    (AfterEpoch nowNs → AfterEpoch nowNs' →
      ((∀ t t', nowNs ≤ t → t ≤ t' → t' ≤ nowNs' → ConvertedInOrder t t') ↔
        ∀ round, ¬ (nowNs.toInt < IDGenMgr.roundStart round ∧
          IDGenMgr.roundStart round ≤ nowNs'.toInt))) ∧
    (nowNs.toInt < kEpochTimestampSeconds.toInt * 10 ^ 9 →
      ((∃ crash, IDGenMgr.timestampSeconds nowNs = .error crash) ↔
        nowNs.toInt < (kEpochTimestampSeconds.toInt + 1) * 10 ^ 6)) := by
  refine ⟨convertedToSeconds_iff, forall_convertedInOrder_iff, fun _ => ?_⟩
  rw [← IDGenMgr.sinceEpoch_nonpos_iff]
  constructor
  · rintro ⟨crash, hcrash⟩
    by_contra hpos
    obtain ⟨timestamp, hok, _⟩ := IDGenMgr.timestampSeconds_of_pos (not_le.mp hpos)
    rw [hok] at hcrash
    cases hcrash
  · intro hle
    exact ⟨_, IDGenMgr.timestampSeconds_of_nonpos hle⟩

/-- A reading at which milliseconds and seconds agree, the readings of the day before a round
ends, which keep their order, and the last reading that is refused. -/
theorem timestamps_in_seconds_april :
    ConvertedToSeconds 1745502224400000000 ∧
      (∀ t t', 1745412578176000000 ≤ t → t ≤ t' → t' ≤ 1745498978175999999 →
        ConvertedInOrder t t') ∧
      ∃ crash, IDGenMgr.timestampSeconds 1742256000999999 = .error crash := by
  refine ⟨?_, ?_, ?_⟩
  · exact ((timestamps_in_seconds_iff 1745502224400000000 0).1 (by decide)).mpr (by decide)
  · refine ((timestamps_in_seconds_iff 1745412578176000000 1745498978175999999).2.1 (by decide)
      (by decide)).mpr fun round => ?_
    have hepoch : kEpochTimestampSeconds.toInt = 1742256000 := rfl
    have hlow : (1745412578176000000 : Int64).toInt = 1745412578176000000 := rfl
    have hhigh : (1745498978175999999 : Int64).toInt = 1745498978175999999 := rfl
    rw [IDGenMgr.roundStart]
    omega
  · exact ((timestamps_in_seconds_iff 1742256000999999 0).2.2 (by decide)).mpr (by decide)

/-- Two readings a millisecond apart, of which the second is converted to 0, and a reading
five seconds after the epoch. -/
theorem timestamps_not_in_seconds :
    AfterEpoch 1742256005000000000 ∧
      IDGenMgr.timestampSeconds 1742256005000000000 = .ok 1051994120 ∧
      ¬ ConvertedToSeconds 1742256005000000000 ∧
      IDGenMgr.timestampSeconds 1745498978175000000 = .ok 4294967295 ∧
      IDGenMgr.timestampSeconds 1745498978176000000 = .ok 0 ∧
      IDGenMgr.timestampSeconds 1742255999000000000 = .ok 1051988120 := by
  refine ⟨by decide, by decide, ?_, by decide, by decide, by decide⟩
  rintro ⟨timestamp, hok, hvalue⟩
  have htimestamp : timestamp = 1051994120 := (Except.ok.inj hok).symm
  subst htimestamp
  exact absurd hvalue (by decide)

end RocketFS
