import Mathlib.Order.Basic
import RocketFS.Lib.Run

/-!
# Machines that only move up

Some machines carry a value that no step lowers, at least in the states that keep an
invariant. A step may issue something, which then ranks above the value before the step
and not above the value after it; and a step may name a floor, which the value does not
stay below. So what is issued along a run increases, and everything issued ranks above
every floor named before it.

## Main definitions

* `Ratchets` — the value of a machine only moves up

## Main results

* `Ratchets.issued_increasing` — what a run issues increases
* `Ratchets.lt_issued` — it ranks above the first value and the floors named before it
-/

namespace RocketFS

variable {σ ι ο α β : Type*} [Preorder α]

/-- No step from a state with the invariant lowers the value: what a step issues ranks
between the value before and the value after it, and a floor is not above the value after
the step that names it. -/
structure Ratchets (step : σ → ι → Option (σ × ο)) (Inv : σ → Prop) (value : σ → α)
    (issue : ι × ο → Option β) (rank : β → α) (floor : ι × ο → Option α) : Prop where
  keeps : ∀ {s s' i o}, Inv s → step s i = some (s', o) → Inv s'
  mono : ∀ {s s' i o}, Inv s → step s i = some (s', o) → value s ≤ value s'
  issue_gt : ∀ {s s' i o b}, Inv s → step s i = some (s', o) → issue (i, o) = some b →
    value s < rank b
  issue_le : ∀ {s s' i o b}, Inv s → step s i = some (s', o) → issue (i, o) = some b →
    rank b ≤ value s'
  floor_le : ∀ {s s' i o a}, Inv s → step s i = some (s', o) → floor (i, o) = some a →
    a ≤ value s'

namespace Ratchets

variable {step : σ → ι → Option (σ × ο)} {Inv : σ → Prop} {value : σ → α}
  {issue : ι × ο → Option β} {rank : β → α} {floor : ι × ο → Option α} {s₀ s : σ}
  {trace : List (ι × ο)} (hup : Ratchets step Inv value issue rank floor) (hinit : Inv s₀)
include hup hinit

theorem inv_of_run (h : Run step s₀ trace s) : Inv s := by
  induction h with
  | nil => exact hinit
  | snoc _ hs ih => exact hup.keeps ih hs

/-- A run does not lower the value. -/
theorem le_of_run (h : Run step s₀ trace s) : value s₀ ≤ value s := by
  induction h with
  | nil => exact le_rfl
  | snoc hrun hs ih => exact ih.trans (hup.mono (hup.inv_of_run hinit hrun) hs)

/-- Nothing that was issued ranks above the value. -/
theorem issued_le (h : Run step s₀ trace s) :
    ∀ b ∈ trace.filterMap issue, rank b ≤ value s := by
  induction h with
  | nil => simp
  | @snoc trace s s' i o hrun hs ih =>
    have hinv : Inv s := hup.inv_of_run hinit hrun
    intro b hb
    rw [List.filterMap_append] at hb
    rcases List.mem_append.mp hb with hold | hnew
    · exact (ih b hold).trans (hup.mono hinv hs)
    · obtain ⟨e, he, hissue⟩ := List.mem_filterMap.mp hnew
      rw [List.mem_singleton.mp he] at hissue
      exact hup.issue_le hinv hs hissue

/-- What is issued along a run increases. -/
theorem issued_increasing (h : Run step s₀ trace s) :
    (trace.filterMap issue).Pairwise fun a b => rank a < rank b := by
  induction h with
  | nil => exact List.Pairwise.nil
  | @snoc trace s s' i o hrun hs ih =>
    have hinv : Inv s := hup.inv_of_run hinit hrun
    rw [List.filterMap_append, List.pairwise_append]
    refine ⟨ih, ?_, ?_⟩
    · -- a step issues at most one thing
      cases hissue : issue (i, o) <;> simp [hissue]
    · intro a ha b hb
      -- what was issued before is not above the value, and what is issued now is
      obtain ⟨e, he, hissue⟩ := List.mem_filterMap.mp hb
      rw [List.mem_singleton.mp he] at hissue
      exact (hup.issued_le hinit hrun a ha).trans_lt (hup.issue_gt hinv hs hissue)

/-- A floor is not above the value of any later state. -/
theorem floor_le_of_mem (h : Run step s₀ trace s) {e : ι × ο} (he : e ∈ trace) {a : α}
    (hfloor : floor e = some a) : a ≤ value s := by
  obtain ⟨before, after, rfl⟩ := List.append_of_mem he
  obtain ⟨s₁, s₂, hbefore, hs, hafter⟩ := h.step_at
  have hinv : Inv s₁ := hup.inv_of_run hinit hbefore
  exact (hup.floor_le hinv hs hfloor).trans (hup.le_of_run (hup.keeps hinv hs) hafter)

/-- What is issued ranks above the value at the start and above the floors that were named
before it. -/
theorem lt_issued {before after : List (ι × ο)} {e : ι × ο}
    (h : Run step s₀ (before ++ e :: after) s) {b : β} (hissue : issue e = some b) :
    value s₀ < rank b ∧ ∀ e' ∈ before, ∀ a, floor e' = some a → a < rank b := by
  obtain ⟨s₁, s₂, hbefore, hs, _⟩ := h.step_at
  have habove : value s₁ < rank b := hup.issue_gt (hup.inv_of_run hinit hbefore) hs hissue
  refine ⟨(hup.le_of_run hinit hbefore).trans_lt habove, fun e' he' a hfloor => ?_⟩
  exact (hup.floor_le_of_mem hinit hbefore he' hfloor).trans_lt habove

end Ratchets

end RocketFS
