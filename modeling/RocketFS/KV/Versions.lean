import RocketFS.KV.Conflicts
import RocketFS.KV.Serializability

/-!
# Versions, and commits that are never refused

`StartTxn` and `CommitTxn` draw their versions from one counter, so in every run the
versions drawn are 1, 2, 3 and so on, a transaction commits at a later version than it
started, and the checks of `IsConflictFree` on the two hold. The detector is never told
of a commit. So `IsConflictFree` returns true every time it is called, whatever the
transactions have read and written, and no transaction is ever aborted.

The counter is an `int64_t`, and the model's is not bounded. The two agree for the first
`2 ^ 63 - 1` draws, and the next draw of the source would give a negative version, which a
`CHECK` refuses; the results are for runs that draw no more than that.

## Main definitions

* `drawnVersions` — the versions a run has drawn, in order
* `fetchedVersions` — what the `int64_t` of the source returns
* `Session.Versions` — what is known of the versions of a session

## Main results

* `versionsInv_run` — the invariant along every run
* `commit_never_refused` — no run refuses a commit
-/

namespace RocketFS

/-- The version a step has drawn, if it draws one. -/
def Reply.drawn : Reply → List ℤ
  | .version v => [v]
  | _ => []

/-- The versions drawn in a run. -/
def drawnVersions (trace : Trace) : List ℤ := trace.flatMap fun e => e.2.drawn

theorem drawnVersions_snoc (trace : Trace) (c : Call) (reply : Reply) :
    drawnVersions (trace ++ [(c, reply)]) = drawnVersions trace ++ reply.drawn := by
  simp [drawnVersions]

/-- The numbers from 1 on, `n` of them. -/
def countFrom1 (n : ℕ) : List ℤ := (List.range n).map fun i : ℕ => (i : ℤ) + 1

theorem countFrom1_succ (n : ℕ) : countFrom1 (n + 1) = countFrom1 n ++ [(n : ℤ) + 1] := by
  simp [countFrom1, List.range_succ]

@[simp] theorem length_countFrom1 (n : ℕ) : (countFrom1 n).length = n := by
  simp [countFrom1]

/-- What the first `n` calls of `fetch_add(1)` on an `int64_t` that starts at 1 return. -/
def fetchedVersions (n : ℕ) : List Int64 := (List.range n).map fun i : ℕ => 1 + Int64.ofNat i

/-- Until it wraps around, the counter of the source counts. -/
theorem toInt_fetchedVersions {n : ℕ} (h : n < 2 ^ 63) :
    (fetchedVersions n).map Int64.toInt = countFrom1 n := by
  rw [fetchedVersions, countFrom1, List.map_map]
  refine List.map_congr_left fun i hi => ?_
  have hlt : 1 + i < 2 ^ 63 := by
    have := List.mem_range.mp hi
    omega
  have hadd : (1 : Int64) + Int64.ofNat i = Int64.ofNat (1 + i) := (Int64.ofNat_add 1 i).symm
  rw [Function.comp_apply, hadd, Int64.toInt_ofNat_of_lt hlt]
  push_cast
  ring

/-- What is known of the versions of a session, given the next version to be drawn. -/
def Session.Versions (version : ℤ) : Session → Prop
  | .drawn startVersion => 0 < startVersion ∧ startVersion < version
  | .live txn => 0 < txn.startVersion ∧ txn.startVersion < version
  | .committing txn | .validated txn | .committed txn =>
    0 < txn.startVersion ∧ txn.startVersion < txn.commitVersion ∧ txn.commitVersion < version
  | .aborted _ => False
  | .thrown _ => True

/-- The store is as its constructor and later calls leave it, the versions drawn are
counted, and every session has its versions in order. -/
structure VersionsInv (trace : Trace) (s : KVState) : Prop where
  opened : s.store.Opened
  drawn : ∃ n : ℕ, drawnVersions trace = countFrom1 n ∧ s.store.version = n + 1
  session : ∀ t session, s.session t = some session → session.Versions s.store.version

section Step

variable {store store' : KVStore} {session session' : Session} {action : Action} {reply : Reply}

theorem Session.Versions.mono {version version' : ℤ} (h : session.Versions version)
    (hle : version ≤ version') : session.Versions version' := by
  cases session with
  | drawn startVersion => exact ⟨h.1, by have := h.2; omega⟩
  | live txn => exact ⟨h.1, by have := h.2; omega⟩
  | committing txn | validated txn | committed txn =>
    exact ⟨h.1, h.2.1, by have := h.2.2; omega⟩
  | aborted txn => exact h
  | thrown crash => trivial

/-- A call changes neither version of a transaction. -/
theorem CallStep.versions {txn txn' : Txn} {op : TxnOp} (h : CallStep txn op txn' reply) :
    txn'.startVersion = txn.startVersion ∧ reply.drawn = [] := by
  cases h <;> exact ⟨rfl, rfl⟩

/-- On a store that remembers no commit, a transaction with its versions in order is free
of conflicts. -/
theorem KVStore.Opened.isConflictFree (h : store.Opened) {txn : Txn}
    (hpos : 0 < txn.startVersion) (hlt : txn.startVersion < txn.commitVersion) :
    store.conflictDetector.isConflictFree txn = .ok true := by
  rw [h.detector]
  exact (ConflictDetector.isConflictFree_eq hpos hlt).trans (if_neg (not_lt.mpr hpos.le))

/-- What a step does to the version counter: it draws the next version, or leaves the
counter as it is. -/
theorem SessionStep.draws {session₀ : Option Session}
    (h : SessionStep store session₀ action reply session' store') :
    (reply.drawn = [store.version] ∧ store'.version = store.version + 1) ∨
      (reply.drawn = [] ∧ store'.version = store.version) := by
  cases h with
  | drawStart => exact .inl ⟨rfl, rfl⟩
  | drawCommit txn => exact .inl ⟨rfl, rfl⟩
  | call hcall => exact .inr ⟨hcall.versions.2, rfl⟩
  | takeSnapshot | callThrew | conflictFree | conflict | checkThrew | write | writeThrew =>
    exact .inr ⟨rfl, rfl⟩

theorem SessionStep.opened {session₀ : Option Session}
    (h : SessionStep store session₀ action reply session' store') (hopened : store.Opened) :
    store'.Opened := by
  have hpos := hopened.version_pos
  refine ⟨?_, ?_⟩
  · cases h <;> exact hopened.detector
  · rcases h.draws with ⟨_, hversion⟩ | ⟨_, hversion⟩ <;> omega

/-- The session that takes a step keeps its versions in order. -/
theorem SessionStep.versions {session₀ : Option Session} (hopened : store.Opened)
    (h : SessionStep store session₀ action reply session' store')
    (hold : ∀ session, session₀ = some session → session.Versions store.version) :
    session'.Versions store'.version := by
  have hpos := hopened.version_pos
  cases h with
  | drawStart => exact ⟨hpos, Int.lt_succ _⟩
  | takeSnapshot startVersion => exact hold (.drawn startVersion) rfl
  | @call txn txn' op _ hcall =>
    have hlive := hold _ rfl
    rw [Session.Versions, ← hcall.versions.1] at hlive
    exact hlive
  | drawCommit txn =>
    obtain ⟨hstart, hlt⟩ := hold _ rfl
    exact ⟨hstart, hlt, Int.lt_succ _⟩
  | conflictFree txn _ => exact hold (.committing txn) rfl
  | conflict txn hconflict =>
    -- the detector remembers nothing that could be in conflict
    obtain ⟨hstart, hlt, _⟩ := hold _ rfl
    rw [hopened.isConflictFree hstart hlt] at hconflict
    cases hconflict
  | write txn => exact hold (.validated txn) rfl
  | callThrew | checkThrew | writeThrew => trivial

end Step

theorem versionsInv_init (db : Database) : VersionsInv [] (KVState.init db) where
  opened := KVStore.opened_openDb db
  drawn := ⟨0, rfl, rfl⟩
  session t session h := by cases h

theorem VersionsInv.step {trace : Trace} {s s' : KVState} {c : Call} {reply : Reply}
    (h : VersionsInv trace s) (hs : kvStep s c = some (s', reply)) :
    VersionsInv (trace ++ [(c, reply)]) s' := by
  obtain ⟨t, action⟩ := c
  obtain ⟨session', hstep, hself, hother⟩ := kvStep_inv hs
  obtain ⟨n, hdrawn, hversion⟩ := h.drawn
  refine ⟨hstep.opened h.opened, ?_, fun u session hsession => ?_⟩
  · rw [drawnVersions_snoc, hdrawn]
    rcases hstep.draws with ⟨hreply, hnext⟩ | ⟨hreply, hnext⟩
    · refine ⟨n + 1, ?_, ?_⟩
      · rw [hreply, countFrom1_succ, hversion]
      · rw [hnext, hversion]
        push_cast
        ring
    · exact ⟨n, by rw [hreply, List.append_nil], hnext.trans hversion⟩
  · by_cases hu : u = t
    · subst hu
      obtain rfl := Option.some.inj (hself.symm.trans hsession)
      exact hstep.versions h.opened fun session hold => h.session u session hold
    · -- the counter may have moved, which keeps the order of another's versions
      rw [hother u hu] at hsession
      have hle : s.store.version ≤ s'.store.version := by
        rcases hstep.draws with ⟨_, hnext⟩ | ⟨_, hnext⟩ <;> omega
      exact (h.session u session hsession).mono hle

theorem versionsInv_run {db : Database} {trace : Trace} {s : KVState}
    (h : Run kvStep (KVState.init db) trace s) : VersionsInv trace s :=
  h.invariant (versionsInv_init db) fun _ _ _ _ _ _ hinv hs => hinv.step hs

/-- A check for conflicts that a run makes returns true. -/
theorem VersionsInv.verdict {trace : Trace} {s s' : KVState} {t : TxnId} {reply : Reply}
    (h : VersionsInv trace s) (hs : kvStep s ⟨t, .isConflictFree⟩ = some (s', reply)) :
    reply = .verdict true := by
  simp only [kvStep] at hs
  split at hs
  all_goals first | contradiction | skip
  rename_i txn _ hsession
  obtain ⟨hpos, hlt, _⟩ := h.session t _ hsession
  rw [h.opened.isConflictFree hpos hlt] at hs
  exact ((Prod.mk.inj (Option.some.inj hs)).2).symm

/-- In every run of the store that draws fewer than `2 ^ 63` versions: they are 1, 2, 3 and
so on, and the counter of the source returns the same ones; every check for conflicts
returns true, and no transaction is aborted. -/
theorem commit_never_refused {db : Database} {trace : Trace} {s : KVState}
    (h : Run kvStep (KVState.init db) trace s) (hdraws : (drawnVersions trace).length < 2 ^ 63) :
    (∃ n, drawnVersions trace = countFrom1 n ∧
        drawnVersions trace = (fetchedVersions n).map Int64.toInt) ∧
      (∀ t reply, (⟨t, .isConflictFree⟩, reply) ∈ trace → reply = .verdict true) ∧
      ∀ t txn, s.session t ≠ some (.aborted txn) := by
  obtain ⟨n, hdrawn, _⟩ := (versionsInv_run h).drawn
  have hn : n < 2 ^ 63 := by
    rwa [hdrawn, length_countFrom1] at hdraws
  refine ⟨⟨n, hdrawn, ?_⟩, fun t reply hmem => ?_, fun t txn haborted => ?_⟩
  · rw [toInt_fetchedVersions hn]
    exact hdrawn
  · obtain ⟨before, after, rfl⟩ := List.append_of_mem hmem
    obtain ⟨s₁, s₂, hbefore, hstep, _⟩ := h.step_at
    exact (versionsInv_run hbefore).verdict hstep
  · exact (versionsInv_run h).session t _ haborted

/-- Two transactions that both read and write one key are both found free of conflicts. -/
theorem commit_never_refused_lostUpdate :
    ∃ s, Run kvStep (KVState.init .empty) lostUpdateTrace s ∧
      (drawnVersions lostUpdateTrace).length = 4 ∧
      (⟨0, .isConflictFree⟩, .verdict true) ∈ lostUpdateTrace ∧
      (⟨1, .isConflictFree⟩, .verdict true) ∈ lostUpdateTrace ∧
      (∃ n, drawnVersions lostUpdateTrace = countFrom1 n ∧
        drawnVersions lostUpdateTrace = (fetchedVersions n).map Int64.toInt) ∧
      ∀ t txn, s.session t ≠ some (.aborted txn) := by
  obtain ⟨s, hrun⟩ := lostUpdateTrace_run
  obtain ⟨hdrawn, _, hsessions⟩ := commit_never_refused hrun (by decide)
  exact ⟨s, hrun, by decide, by decide, by decide, hdrawn, hsessions⟩

end RocketFS
