import Mathlib.Algebra.BigOperators.Group.List.Basic
import Mathlib.Algebra.Ring.Nat
import Mathlib.Data.List.Infix

/-!
# The longest prefix that fits

Items that have a weight are taken from the front of a list for as long as the next one
fits into what is left of a capacity. What is taken is the longest prefix of the list
whose weight is within the capacity: weights are not negative, so the prefixes that fit
are those up to some length.

## Main definitions

* `takeFitting` — the items that are taken
* `IsLongestFitting` — the longest prefix that fits

## Main results

* `takeFitting_isLongest` — taking items one by one yields the longest prefix
* `takeFitting_of_le` — a capacity for all items takes them all
-/

namespace RocketFS

variable {α : Type*} {weight : α → ℕ}

def totalWeight (weight : α → ℕ) (items : List α) : ℕ := (items.map weight).sum

theorem totalWeight_cons (item : α) (rest : List α) :
    totalWeight weight (item :: rest) = weight item + totalWeight weight rest := by
  rw [totalWeight, List.map_cons, List.sum_cons, totalWeight]

/-- The items taken from the front of the list, one by one. -/
def takeFitting (weight : α → ℕ) : List α → ℕ → List α
  | [], _ => []
  | item :: rest, capacity =>
    if weight item ≤ capacity then item :: takeFitting weight rest (capacity - weight item)
    else []

/-- A prefix of the list that fits, and that has every prefix that fits as a prefix. -/
structure IsLongestFitting (weight : α → ℕ) (items : List α) (capacity : ℕ) (taken : List α) :
    Prop where
  isPrefix : taken <+: items
  fits : totalWeight weight taken ≤ capacity
  longest : ∀ other, other <+: items → totalWeight weight other ≤ capacity → other <+: taken

section

variable {item : α} {rest : List α} {capacity : ℕ}

theorem takeFitting_cons_of_le (h : weight item ≤ capacity) :
    takeFitting weight (item :: rest) capacity =
      item :: takeFitting weight rest (capacity - weight item) := by
  rw [takeFitting, if_pos h]

theorem takeFitting_cons_of_lt (h : capacity < weight item) :
    takeFitting weight (item :: rest) capacity = [] := by
  rw [takeFitting, if_neg (not_le.mpr h)]

end

theorem takeFitting_isLongest (weight : α → ℕ) (items : List α) (capacity : ℕ) :
    IsLongestFitting weight items capacity (takeFitting weight items capacity) := by
  induction items generalizing capacity with
  | nil => exact ⟨List.prefix_rfl, Nat.zero_le _, fun _ h _ => h⟩
  | cons item rest ih =>
    rcases le_or_gt (weight item) capacity with hroom | hroom
    · obtain ⟨hpre, hfits, hlongest⟩ := ih (capacity - weight item)
      rw [takeFitting_cons_of_le hroom]
      refine ⟨List.cons_prefix_cons.mpr ⟨rfl, hpre⟩, ?_, fun other hother hweight => ?_⟩
      · rw [totalWeight_cons]
        omega
      · rcases List.prefix_cons_iff.mp hother with rfl | ⟨tail, rfl, htail⟩
        · exact List.nil_prefix
        · rw [totalWeight_cons] at hweight
          exact List.cons_prefix_cons.mpr ⟨rfl, hlongest tail htail (by omega)⟩
    · -- a prefix with the first item in it is too heavy
      rw [takeFitting_cons_of_lt hroom]
      have hnone : [] <+: item :: rest := List.nil_prefix
      refine ⟨hnone, Nat.zero_le _, fun other hother hweight => ?_⟩
      rcases List.prefix_cons_iff.mp hother with rfl | ⟨tail, rfl, _⟩
      · exact List.nil_prefix
      · rw [totalWeight_cons] at hweight
        omega

theorem takeFitting_of_le {items : List α} {capacity : ℕ}
    (h : totalWeight weight items ≤ capacity) : takeFitting weight items capacity = items := by
  obtain ⟨hpre, _, hlongest⟩ := takeFitting_isLongest weight items capacity
  have hall : items <+: takeFitting weight items capacity := hlongest items List.prefix_rfl h
  exact hpre.eq_of_length_le hall.length_le

end RocketFS
