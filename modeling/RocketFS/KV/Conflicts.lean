import RocketFS.KV.Store

/-!
# What the conflict detector decides

`IsConflictFree` walks the remembered transactions from the start version of the
transaction under test to its commit version, with a `CHECK` at every stop. On a
history that is keyed by commit version and in which neither of the two versions
occurs, no `CHECK` fails, and the verdict is the intersection test it stands for.
`PurgeTo` removes history; the comparison of the start version with the latest
purged version makes up for exactly what was removed.

## Main definitions

* `ConflictDetector.remembered` — the transactions a detector holds
* `ConflictDetector.WellKeyed` — every one of them stands under its commit version
* `Txn.wroteReadKey` — a transaction wrote a key another one has read
* `KVStore.Opened` — a store as its constructor and later calls leave it

## Main results

* `ConflictDetector.exists_isConflictFree` — the verdict of one detector
* `ConflictDetector.isConflictFree_purged` — the verdict after any purges, in terms
  of the history before them
* `KVStore.Opened.commitTxn` — a commit on such a store succeeds
-/

namespace RocketFS

/-- `concurrentTxn` wrote a key that `txn` has read: the `std::any_of` of `HasConflict`. -/
def Txn.wroteReadKey (txn concurrentTxn : Txn) : Bool :=
  concurrentTxn.writeSet.entries.any fun e => (txn.readSet.lookup e.1).isSome

theorem Txn.wroteReadKey_iff {txn concurrentTxn : Txn} :
    txn.wroteReadKey concurrentTxn = true ↔
      ∃ k, (concurrentTxn.writeSet.lookup k).isSome ∧ (txn.readSet.lookup k).isSome := by
  rw [wroteReadKey, List.any_eq_true]
  constructor
  · rintro ⟨⟨k, value⟩, hmem, hread⟩
    refine ⟨k, ?_, hread⟩
    rw [SortedMap.mem_entries.mp hmem]
    rfl
  · rintro ⟨k, hwritten, hread⟩
    obtain ⟨value, hvalue⟩ := Option.isSome_iff_exists.mp hwritten
    exact ⟨(k, value), SortedMap.mem_entries.mpr hvalue, hread⟩

/-- A transaction that committed at a version and wrote one key. -/
def Txn.writer (version : ℤ) (k : CFKey) : Txn :=
  { Txn.new .empty (version - 1) with
    commitVersion := version
    writeSet := .insert .empty k (some []) }

theorem Txn.writer_lookup_isSome {version : ℤ} {k k' : CFKey} :
    ((writer version k).writeSet.lookup k').isSome ↔ k' = k := by
  simp only [writer, SortedMap.lookup_insert, SortedMap.lookup_empty]
  split_ifs with h <;> simp [h]

namespace ConflictDetector

variable {detector : ConflictDetector} {txn : Txn}

/-- The transactions in `committed_txns_`. -/
def remembered (detector : ConflictDetector) : List Txn :=
  detector.committedTxns.entries.map Prod.snd

/-- Every remembered transaction stands under its commit version. -/
def WellKeyed (detector : ConflictDetector) : Prop :=
  ∀ e ∈ detector.committedTxns.entries, e.1 = e.2.commitVersion

/-- The two versions of a transaction are the commit version of no remembered one. -/
def Apart (detector : ConflictDetector) (txn : Txn) : Prop :=
  ∀ c ∈ detector.remembered,
    c.commitVersion ≠ txn.startVersion ∧ c.commitVersion ≠ txn.commitVersion

/-- No remembered transaction that committed between the two versions wrote a key the
transaction has read. -/
def NoneOverwrote (detector : ConflictDetector) (txn : Txn) : Prop :=
  ∀ c ∈ detector.remembered,
    txn.startVersion < c.commitVersion → c.commitVersion < txn.commitVersion →
      ∀ k, (c.writeSet.lookup k).isSome → (txn.readSet.lookup k).isNone

/-! ### One detector -/

theorem hasConflict_eq {concurrentTxn : Txn}
    (hstart : txn.startVersion < concurrentTxn.commitVersion)
    (hcommit : concurrentTxn.commitVersion < txn.commitVersion) :
    hasConflict txn concurrentTxn = .ok (txn.wroteReadKey concurrentTxn) := by
  simp only [hasConflict, hstart, hcommit, decide_true, check_true, ok_bind]
  rfl

/-- The walk fails no `CHECK` where every stop stands under its commit version and lies
strictly between the two versions. -/
theorem anyConflict_eq {window : List (ℤ × Txn)}
    (h : ∀ e ∈ window, e.1 = e.2.commitVersion ∧ txn.startVersion < e.1 ∧
      e.1 < txn.commitVersion) :
    anyConflict txn window = .ok (window.any fun e => txn.wroteReadKey e.2) := by
  induction window with
  | nil => rfl
  | cons e rest ih =>
    obtain ⟨version, c⟩ := e
    obtain ⟨hkey, hstart, hcommit⟩ := h (version, c) List.mem_cons_self
    simp only at hkey hstart hcommit
    -- `HasConflict` checks the versions of the transaction, the window those of the keys
    subst hkey
    rw [anyConflict, hasConflict_eq hstart hcommit,
      ih fun e he => h e (List.mem_cons_of_mem _ he)]
    cases hwrote : txn.wroteReadKey c <;> simp [hwrote]

/-- The remembered transactions from `lower_bound(start_version_)` to
`upper_bound(commit_version_)`. -/
def window (detector : ConflictDetector) (txn : Txn) : List (ℤ × Txn) :=
  (detector.committedTxns.seek txn.startVersion).takeWhile fun e => e.1 ≤ txn.commitVersion

theorem isConflictFree_eq (hpos : 0 < txn.startVersion)
    (hlt : txn.startVersion < txn.commitVersion) :
    detector.isConflictFree txn =
      if txn.startVersion < detector.latestPurgedVersion then .ok false
      else (anyConflict txn (detector.window txn)).map fun conflict => !conflict := by
  simp only [isConflictFree, hpos, hlt, decide_true, check_true, ok_bind]
  rfl

/-- A window on a well-keyed history in which the two versions do not occur lies strictly
between them. -/
theorem mem_window (hkeyed : detector.WellKeyed) (hapart : detector.Apart txn)
    {e : ℤ × Txn} :
    e ∈ detector.window txn ↔
      e ∈ detector.committedTxns.entries ∧ txn.startVersion < e.1 ∧ e.1 < txn.commitVersion := by
  rw [window, SortedMap.mem_seek_takeWhile_le]
  refine and_congr_right fun hmem => ?_
  have hkey := hkeyed e hmem
  -- the bounds are half-open, and neither end is a commit version of the history
  obtain ⟨hne, hne'⟩ := hapart e.2 (List.mem_map_of_mem hmem)
  omega

theorem noneOverwrote_iff (hkeyed : detector.WellKeyed) (hapart : detector.Apart txn) :
    detector.NoneOverwrote txn ↔ ∀ e ∈ detector.window txn, ¬ txn.wroteReadKey e.2 = true := by
  constructor
  · intro hnone e he hwrote
    obtain ⟨hmem, hstart, hcommit⟩ := (mem_window hkeyed hapart).mp he
    rw [hkeyed e hmem] at hstart hcommit
    obtain ⟨k, hwritten, hread⟩ := Txn.wroteReadKey_iff.mp hwrote
    have hunread := hnone e.2 (List.mem_map_of_mem hmem) hstart hcommit k hwritten
    exact Option.not_isSome_iff_eq_none.mpr (Option.isNone_iff_eq_none.mp hunread) hread
  · intro h c hc hstart hcommit k hwritten
    obtain ⟨e, hmem, rfl⟩ := List.mem_map.mp hc
    rw [← hkeyed e hmem] at hstart hcommit
    have hwrote := h e ((mem_window hkeyed hapart).mpr ⟨hmem, hstart, hcommit⟩)
    rw [Option.isNone_iff_eq_none, ← Option.not_isSome_iff_eq_none]
    exact fun hread => hwrote (Txn.wroteReadKey_iff.mpr ⟨k, hwritten, hread⟩)

/-- The verdict of a detector: no `CHECK` fails, and it is "conflict free" exactly when
nothing above the start version was purged and no remembered transaction in between wrote
a key that was read. -/
theorem exists_isConflictFree (hkeyed : detector.WellKeyed) (hpos : 0 < txn.startVersion)
    (hlt : txn.startVersion < txn.commitVersion) (hapart : detector.Apart txn) :
    ∃ free, detector.isConflictFree txn = .ok free ∧
      (free = true ↔
        detector.latestPurgedVersion ≤ txn.startVersion ∧ detector.NoneOverwrote txn) := by
  rw [isConflictFree_eq hpos hlt, noneOverwrote_iff hkeyed hapart]
  by_cases hpurged : txn.startVersion < detector.latestPurgedVersion
  · exact ⟨false, if_pos hpurged, by simp [not_le.mpr hpurged]⟩
  · have hwindow : ∀ e ∈ detector.window txn,
        e.1 = e.2.commitVersion ∧ txn.startVersion < e.1 ∧ e.1 < txn.commitVersion := by
      intro e he
      obtain ⟨hmem, hbetween⟩ := (mem_window hkeyed hapart).mp he
      exact ⟨hkeyed e hmem, hbetween⟩
    refine ⟨!(detector.window txn).any fun e => txn.wroteReadKey e.2, ?_, ?_⟩
    · rw [if_neg hpurged, anyConflict_eq hwindow]
      rfl
    · rw [Bool.not_eq_true', List.any_eq_false]
      exact (and_iff_right (not_lt.mp hpurged)).symm

/-! ### Purging -/

theorem remembered_purgeTo {version : ℤ} (hkeyed : detector.WellKeyed) {c : Txn} :
    c ∈ (detector.purgeTo version).remembered ↔
      c ∈ detector.remembered ∧ version < c.commitVersion := by
  constructor
  · intro hc
    obtain ⟨e, he, rfl⟩ := List.mem_map.mp hc
    obtain ⟨hmem, hlt⟩ := SortedMap.mem_eraseUpTo.mp he
    exact ⟨List.mem_map_of_mem hmem, hkeyed e hmem ▸ hlt⟩
  · rintro ⟨hc, hlt⟩
    obtain ⟨e, hmem, rfl⟩ := List.mem_map.mp hc
    exact List.mem_map_of_mem (SortedMap.mem_eraseUpTo.mpr ⟨hmem, hkeyed e hmem ▸ hlt⟩)

theorem WellKeyed.purgeTo (hkeyed : detector.WellKeyed) (version : ℤ) :
    (detector.purgeTo version).WellKeyed :=
  fun e he => hkeyed e (SortedMap.mem_eraseUpTo.mp he).1

theorem latestPurgedVersion_purgeTo_le {version bound : ℤ} :
    (detector.purgeTo version).latestPurgedVersion ≤ bound ↔
      detector.latestPurgedVersion ≤ bound ∧ version ≤ bound := by
  simp only [ConflictDetector.purgeTo]
  split_ifs <;> omega

/-- What a sequence of purges leaves: the transactions above all of them, and the largest
of the versions as the latest purged one. -/
theorem foldl_purgeTo (hkeyed : detector.WellKeyed) (purges : List ℤ) :
    (purges.foldl ConflictDetector.purgeTo detector).WellKeyed ∧
      (∀ c, c ∈ (purges.foldl ConflictDetector.purgeTo detector).remembered ↔
        c ∈ detector.remembered ∧ ∀ version ∈ purges, version < c.commitVersion) ∧
      ∀ bound, (purges.foldl ConflictDetector.purgeTo detector).latestPurgedVersion ≤ bound ↔
        detector.latestPurgedVersion ≤ bound ∧ ∀ version ∈ purges, version ≤ bound := by
  induction purges generalizing detector with
  | nil => simpa using hkeyed
  | cons version rest ih =>
    obtain ⟨hkeyed', hremembered, hlatest⟩ := ih (hkeyed.purgeTo version)
    refine ⟨hkeyed', fun c => ?_, fun bound => ?_⟩
    · rw [List.foldl_cons, hremembered, remembered_purgeTo hkeyed, List.forall_mem_cons,
        and_assoc]
    · rw [List.foldl_cons, hlatest, latestPurgedVersion_purgeTo_le, List.forall_mem_cons,
        and_assoc]

/-- Purges at or below the start version lose nothing the verdict depends on. -/
theorem noneOverwrote_purged (hkeyed : detector.WellKeyed) {purges : List ℤ}
    (hpurges : ∀ version ∈ purges, version ≤ txn.startVersion) :
    (purges.foldl ConflictDetector.purgeTo detector).NoneOverwrote txn ↔
      detector.NoneOverwrote txn := by
  obtain ⟨_, hremembered, _⟩ := foldl_purgeTo hkeyed purges
  constructor
  · intro h c hc hstart
    refine h c ((hremembered c).mpr ⟨hc, fun version hversion => ?_⟩) hstart
    exact (hpurges version hversion).trans_lt hstart
  · intro h c hc
    exact h c ((hremembered c).mp hc).1

theorem exists_isConflictFree_purged (hkeyed : detector.WellKeyed) (purges : List ℤ)
    (hpos : 0 < txn.startVersion) (hlt : txn.startVersion < txn.commitVersion)
    (hapart : detector.Apart txn) :
    ∃ free, (purges.foldl ConflictDetector.purgeTo detector).isConflictFree txn = .ok free ∧
      (free = true ↔
        (∀ version ∈ detector.latestPurgedVersion :: purges, version ≤ txn.startVersion) ∧
          detector.NoneOverwrote txn) := by
  obtain ⟨hkeyed', hremembered, hlatest⟩ := foldl_purgeTo hkeyed purges
  have hapart' : (purges.foldl ConflictDetector.purgeTo detector).Apart txn :=
    fun c hc => hapart c ((hremembered c).mp hc).1
  obtain ⟨free, hfree, hiff⟩ := exists_isConflictFree hkeyed' hpos hlt hapart'
  refine ⟨free, hfree, hiff.trans ?_⟩
  rw [hlatest, List.forall_mem_cons]
  exact and_congr_right fun hall => noneOverwrote_purged hkeyed hall.2

/-- Conflict detection after purging, over the whole history: no `CHECK` fails, and the
verdict is "conflict free" exactly when the start version is at least every version purged
and no transaction of the history, purged or not, that committed in between wrote a key
that was read. Fewer purges accept whatever more purges accept. -/
theorem isConflictFree_purged (detector : ConflictDetector) (hkeyed : detector.WellKeyed)
    (purges : List ℤ) (txn : Txn) (hpos : 0 < txn.startVersion)
    (hlt : txn.startVersion < txn.commitVersion) (hapart : detector.Apart txn) :
    ∃ free, (purges.foldl ConflictDetector.purgeTo detector).isConflictFree txn = .ok free ∧
      (free = true ↔
        (∀ version ∈ detector.latestPurgedVersion :: purges, version ≤ txn.startVersion) ∧
          detector.NoneOverwrote txn) ∧
      (free = true → ∀ fewer, fewer ⊆ purges →
        (fewer.foldl ConflictDetector.purgeTo detector).isConflictFree txn = .ok true) := by
  obtain ⟨free, hfree, hiff⟩ := exists_isConflictFree_purged hkeyed purges hpos hlt hapart
  refine ⟨free, hfree, hiff, fun htrue fewer hsub => ?_⟩
  obtain ⟨hpurged, hnone⟩ := hiff.mp htrue
  obtain ⟨free', hfree', hiff'⟩ := exists_isConflictFree_purged hkeyed fewer hpos hlt hapart
  have hfewer : ∀ version ∈ detector.latestPurgedVersion :: fewer,
      version ≤ txn.startVersion :=
    fun version hversion => hpurged version (List.cons_subset_cons _ hsub hversion)
  rw [hfree', hiff'.mpr ⟨hfewer, hnone⟩]

/-- A history of two writers, of which a purge to version 4 removes the first. -/
def twoWriters : ConflictDetector where
  committedTxns :=
    (SortedMap.empty.insert 3 (Txn.writer 3 (cfKey kInodeCFIndex [1]))).insert 6
      (Txn.writer 6 (cfKey kInodeCFIndex [2]))
  latestPurgedVersion := 0

/-- A transaction from version 5 to version 8 that has read the key of the first writer. -/
def reader : Txn :=
  { Txn.new .empty 5 with
    commitVersion := 8
    readSet := .insert .empty (cfKey kInodeCFIndex [1]) (.optional none) }

theorem isConflictFree_purged_twoWriters :
    (List.foldl purgeTo twoWriters [4, 2]).isConflictFree reader = .ok true := by
  have hremembered : twoWriters.remembered =
      [Txn.writer 3 (cfKey kInodeCFIndex [1]), Txn.writer 6 (cfKey kInodeCFIndex [2])] := rfl
  have hkeyed : twoWriters.WellKeyed := by
    intro e he
    rcases List.mem_pair.mp he with rfl | rfl <;> rfl
  have hapart : twoWriters.Apart reader := by
    intro c hc
    rw [hremembered] at hc
    rcases List.mem_pair.mp hc with rfl | rfl <;> decide
  obtain ⟨free, hfree, hiff, _⟩ :=
    isConflictFree_purged twoWriters hkeyed [4, 2] reader (by decide) (by decide) hapart
  rw [hfree, hiff.mpr]
  refine ⟨by decide, fun c hc hstart _ k hwritten => ?_⟩
  rw [hremembered] at hc
  rcases List.mem_pair.mp hc with rfl | rfl
  · exact absurd hstart (by decide)
  · -- the second writer wrote another key than the one read
    rw [Txn.writer_lookup_isSome.mp hwritten]
    rfl

end ConflictDetector

/-! ### The store

No code adds to `committed_txns_` or calls `PurgeTo`, so the detector of a store is the one
its constructor made, and every transaction is free of conflicts. -/

/-- A store as its constructor and any later calls leave it. -/
structure KVStore.Opened (store : KVStore) : Prop where
  detector : store.conflictDetector = ⟨.empty, 0⟩
  version_pos : 0 < store.version

namespace KVStore

variable {store : KVStore} {txn : Txn}

theorem opened_openDb (db : Database) : (openDb db).Opened := ⟨rfl, Int.one_pos⟩

theorem Opened.bumpVersion (h : store.Opened) : store.bumpVersion.Opened :=
  ⟨h.detector, by have := h.version_pos; simp only [KVStore.bumpVersion]; omega⟩

/-- A commit succeeds and applies the write set. -/
theorem Opened.commitTxn (h : store.Opened) (hpos : 0 < txn.startVersion)
    (hlt : txn.startVersion < store.version) :
    store.commitTxn txn =
      (.ok (.ok ()), { store.bumpVersion with db := store.db.write txn.writeSet }) := by
  have hfree : store.conflictDetector.isConflictFree
      { txn with commitVersion := store.version } = .ok true := by
    rw [h.detector]
    refine (ConflictDetector.isConflictFree_eq ?_ ?_).trans (if_neg (not_lt.mpr hpos.le))
    · exact hpos
    · exact hlt
  simp only [KVStore.commitTxn, KVStore.bumpVersion, hfree]

end KVStore

end RocketFS
