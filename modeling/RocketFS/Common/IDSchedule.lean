import RocketFS.Common.IDGen
import RocketFS.Lib.Ratchet

/-!
# One id generator under concurrency

Any number of threads call `Next` on one generator while the manager thread calls
`Update` with timestamps that do not decrease. `Next` is one atomic step. `Update` is
two: it loads the word, and it stores the new one on whatever the word has become in
between. Ids are handed out in increasing order, hence once, as long as no store moves
the word back; a store that does hands out again what was handed out before.

## Main definitions

* `idStep` — one atomic step of the threads
* `returnedIds` — the ids handed out along a trace
* `KeepsUp` — a step does not move the word back

## Main results

* `ids_nodup_of_keepsUp` — no id is handed out twice
-/

namespace RocketFS

/-- An atomic step. -/
inductive IDAction
  /-- `id_.fetch_add(1)` and the checks of a `Next` call. -/
  | next
  /-- `id_.load()` and the checks of an `Update` call. -/
  | load (timestampSeconds : UInt32)
  /-- The assignment to `id_` in an `Update` call. -/
  | store
  deriving DecidableEq

/-- What a step gives back. -/
inductive IDReply
  | id (result : Except Crash UInt64)
  | updating (result : Except Crash Bool)
  | stored
  deriving DecidableEq

/-- A generator, the `Update` call in progress, and the timestamp it was last called
with. -/
structure IDState where
  gen : IDGen
  pending : Option PendingUpdate
  lastTimestamp : UInt32

/-- A generator that nobody has called yet. -/
def IDState.init (gen : IDGen) : IDState := ⟨gen, none, 0⟩

/-- One step of the threads that share a generator. -/
def idStep (s : IDState) : IDAction → Option (IDState × IDReply)
  | .next => some ({ s with gen := s.gen.next.2 }, .id s.gen.next.1)
  | .load timestampSeconds =>
    if s.pending.isNone ∧ s.lastTimestamp ≤ timestampSeconds then
      match s.gen.updateLoad timestampSeconds with
      | .ok pending =>
        some (⟨s.gen, pending, timestampSeconds⟩, .updating (.ok pending.isSome))
      | .error crash => some (⟨s.gen, none, timestampSeconds⟩, .updating (.error crash))
    else none
  | .store => s.pending.map fun pending =>
    (⟨s.gen.updateStore pending, none, s.lastTimestamp⟩, .stored)

/-- The id a step hands out, if its checks pass. -/
def returnedId : IDAction × IDReply → Option UInt64
  | (.next, .id (.ok id)) => some id
  | _ => none

/-- The ids handed out along a trace, in order. -/
def returnedIds (trace : List (IDAction × IDReply)) : List UInt64 := trace.filterMap returnedId

/-- A step does not move the word back: a store puts at least what the word has become
since the load, and an increment does not overflow. -/
def KeepsUp (s : IDState) : IDAction → Bool
  | .next => s.gen.id.toNat + 1 < 2 ^ 64
  | .load _ => true
  | .store => s.pending.all fun pending => s.gen.id.toNat ≤ (s.gen.updateStore pending).id.toNat

/-! ### Ids are handed out in increasing order -/

/-- What a step does to the word: `Next` hands out the incremented word, if anything, and
the other steps hand out nothing. -/
theorem idStep_cases {s s' : IDState} {action : IDAction} {reply : IDReply}
    (h : idStep s action = some (s', reply)) (hkeeps : KeepsUp s action) :
    s.gen.id.toNat ≤ s'.gen.id.toNat ∧
      ∀ id, returnedId (action, reply) = some id →
        s.gen.id.toNat < id.toNat ∧ id.toNat ≤ s'.gen.id.toNat := by
  cases action with
  | next =>
    -- the increment does not wrap around, and what is returned is the new word
    obtain ⟨rfl, rfl⟩ := Prod.mk.inj (Option.some.inj h)
    have hnext := IDGen.toNat_next_of_lt (of_decide_eq_true hkeeps)
    refine ⟨by simp only [hnext]; omega, fun id hid => ?_⟩
    cases hresult : s.gen.next.1 with
    | error crash => rw [hresult] at hid; cases hid
    | ok raw =>
      rw [hresult] at hid
      obtain rfl := Option.some.inj hid
      rw [IDGen.eq_of_next hresult]
      change _ < s.gen.next.2.id.toNat ∧ s.gen.next.2.id.toNat ≤ s.gen.next.2.id.toNat
      omega
  | load timestampSeconds =>
    -- so far `Update` has only read the word
    have hgen : s'.gen = s.gen := by
      simp only [idStep] at h
      split_ifs at h
      split at h <;> (obtain ⟨rfl, rfl⟩ := Prod.mk.inj (Option.some.inj h); rfl)
    refine ⟨by rw [hgen], fun id hid => ?_⟩
    cases hid
  | store =>
    obtain ⟨pending, hpending, heq⟩ := Option.map_eq_some_iff.mp h
    obtain ⟨rfl, rfl⟩ := Prod.mk.inj heq
    refine ⟨?_, fun id hid => ?_⟩
    · -- the word that is stored is not below the one it replaces
      simpa [KeepsUp, hpending] using hkeeps
    · cases hid

/-- While no step moves the word back, it only moves up. -/
theorem idStep_ratchets :
    Ratchets (guarded idStep KeepsUp) (fun _ => True) (fun s => s.gen.id.toNat) returnedId
      UInt64.toNat (fun _ => none) where
  keeps _ _ := trivial
  mono _ h := by
    obtain ⟨hkeeps, hstep⟩ := guarded_eq_some.mp h
    exact (idStep_cases hstep hkeeps).1
  issue_gt _ h hid := by
    obtain ⟨hkeeps, hstep⟩ := guarded_eq_some.mp h
    exact ((idStep_cases hstep hkeeps).2 _ hid).1
  issue_le _ h hid := by
    obtain ⟨hkeeps, hstep⟩ := guarded_eq_some.mp h
    exact ((idStep_cases hstep hkeeps).2 _ hid).2
  floor_le _ _ hfloor := by cases hfloor

/-- No id is handed out twice in a run in which no step moves the word back. -/
theorem ids_nodup_of_keepsUp {gen : IDGen} {trace : List (IDAction × IDReply)} {s : IDState}
    (h : Run (guarded idStep KeepsUp) (IDState.init gen) trace s) : (returnedIds trace).Nodup := by
  have hincreasing : (returnedIds trace).Pairwise fun a b => a.toNat < b.toNat :=
    idStep_ratchets.issued_increasing trivial h
  exact hincreasing.imp fun hlt heq => absurd hlt (by rw [heq]; exact lt_irrefl _)

/-! ### A schedule that keeps up, and one that does not -/

/-- The generator of node 0 at timestamp 0. -/
def zeroGen : IDGen := ⟨0, 0, 0⟩

/-- One `Next` call while `Update` moves to timestamp 5, and one after it. -/
def keepsUpTrace : List (IDAction × IDReply) :=
  [(.load 5, .updating (.ok true)), (.next, .id (.ok 1)), (.store, .stored),
    (.next, .id (.ok 6))]

theorem ids_nodup_keepsUpTrace :
    (∃ s, Run (guarded idStep KeepsUp) (IDState.init zeroGen) keepsUpTrace s) ∧
      returnedIds keepsUpTrace = [1, 6] ∧ (returnedIds keepsUpTrace).Nodup := by
  obtain ⟨s, hrun⟩ : ∃ s, Run (guarded idStep KeepsUp) (IDState.init zeroGen) keepsUpTrace s :=
    exists_run_of_replay (keepsUpTrace.map Prod.fst) rfl
  exact ⟨⟨s, hrun⟩, rfl, ids_nodup_of_keepsUp hrun⟩

/-- Two `Next` calls while `Update` moves to timestamp 1, and one after it. -/
def movedBackTrace : List (IDAction × IDReply) :=
  [(.load 1, .updating (.ok true)), (.next, .id (.ok 1)), (.next, .id (.ok 2)),
    (.store, .stored), (.next, .id (.ok 2))]

/-- The store undoes an increment, and the id is handed out again. -/
theorem ids_repeated_movedBackTrace :
    IDGen.new 0 0 0 = .ok zeroGen ∧
      (∃ s, Run idStep (IDState.init zeroGen) movedBackTrace s) ∧
      returnedIds movedBackTrace = [1, 2, 2] ∧ ¬ (returnedIds movedBackTrace).Nodup :=
  ⟨rfl, exists_run_of_replay (movedBackTrace.map Prod.fst) rfl, rfl, by decide⟩

end RocketFS
