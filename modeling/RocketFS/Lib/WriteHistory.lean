import Mathlib.Data.List.Induction
import Mathlib.Data.List.Pairwise
import Mathlib.Data.List.Sort

/-!
# Histories of write sets and serial order

A store state is observed key by key, and a transaction replaces the values of
the keys it writes. After a list of transactions, the value of a key is decided
by the writers of that key alone, in the order in which they appear. So two
orders of the same transactions leave the same value whenever they order the
writers of that key alike.

From this follows the correctness of optimistic validation: a history of
transactions that read from snapshots is equivalent to the serial order of their
versions as soon as no transaction misses a write it should have read and no two
writers of a key are applied against their versions.

## Main definitions

* `WriteModel` — states, transactions, and what a transaction writes
* `WriteModel.applyAll` — the state after a list of transactions
* `WriteModel.Serial` — running transactions one after another, each of which
  agrees with the state it starts in
* `WriteModel.Validated` — the conditions optimistic validation establishes

## Main results

* `WriteModel.view_applyAll_congr` — only the writers of a key matter
* `WriteModel.Validated.serial`, `WriteModel.Validated.final` — a validated
  history is equivalent to the serial order of its versions
-/

namespace RocketFS

/-- States observed key by key, and transactions that replace the values of the
keys they write: `delta t k` is `none` where `t` does not write `k`. -/
structure WriteModel (S τ κ ν : Type*) where
  view : S → κ → Option ν
  delta : τ → κ → Option (Option ν)
  apply : S → τ → S
  view_apply : ∀ s t k, view (apply s t) k = (delta t k).getD (view s k)

namespace WriteModel

variable {S τ κ ν : Type*} (M : WriteModel S τ κ ν) {s : S} {k : κ} {t u : τ}
  {l l' : List τ}

/-- Transaction `t` writes key `k`. -/
def Writes (t : τ) (k : κ) : Prop := (M.delta t k).isSome

instance (t : τ) (k : κ) : Decidable (M.Writes t k) :=
  inferInstanceAs (Decidable ((M.delta t k).isSome = true))

/-- The state after a list of transactions, oldest first. -/
def applyAll (s : S) (l : List τ) : S := l.foldl M.apply s

@[simp] theorem applyAll_nil (s : S) : M.applyAll s [] = s := rfl

@[simp] theorem applyAll_cons (s : S) (t : τ) (l : List τ) :
    M.applyAll s (t :: l) = M.applyAll (M.apply s t) l := rfl

theorem applyAll_append (s : S) (l l' : List τ) :
    M.applyAll s (l ++ l') = M.applyAll (M.applyAll s l) l' :=
  List.foldl_append

theorem view_apply_of_not_writes (h : ¬ M.Writes t k) : M.view (M.apply s t) k = M.view s k := by
  have hnone : M.delta t k = none := by simpa [Writes] using h
  rw [M.view_apply, hnone, Option.getD_none]

/-- The value of a key is decided by its writers. -/
theorem view_applyAll_filter (s : S) (l : List τ) (k : κ) :
    M.view (M.applyAll s l) k = M.view (M.applyAll s (l.filter fun t => M.Writes t k)) k := by
  induction l using List.reverseRecOn with
  | nil => rfl
  | append_singleton l t ih =>
    rw [List.filter_append, applyAll_append, applyAll_append]
    by_cases h : M.Writes t k
    · rw [List.filter_cons_of_pos (by simpa using h)]
      simp only [List.filter_nil, applyAll_cons, applyAll_nil, M.view_apply, ih]
    · rw [List.filter_cons_of_neg (by simpa using h)]
      simp only [List.filter_nil, applyAll_cons, applyAll_nil]
      rw [M.view_apply_of_not_writes h, ih]

section Versions

variable (version : τ → ℤ)

/-- Two lists with the same writers of `k`, each in version order, leave the same
value under `k`. -/
theorem view_applyAll_congr (s : S)
    (hl : l.Pairwise fun a b => M.Writes a k → M.Writes b k → version a < version b)
    (hl' : l'.Pairwise fun a b => M.Writes a k → M.Writes b k → version a < version b)
    (hmem : ∀ t, M.Writes t k → (t ∈ l ↔ t ∈ l')) :
    M.view (M.applyAll s l) k = M.view (M.applyAll s l') k := by
  -- the writers of `k` are the same in both lists, and there is one way to sort them
  have hsorted : ∀ {m : List τ},
      m.Pairwise (fun a b => M.Writes a k → M.Writes b k → version a < version b) →
        (m.filter fun t => M.Writes t k).Pairwise fun a b => version a < version b := by
    intro m hm
    refine (hm.filter _).imp_of_mem ?_
    intro a b ha hb hab
    exact hab (by simpa using (List.mem_filter.mp ha).2) (by simpa using (List.mem_filter.mp hb).2)
  have hnodup : ∀ {m : List τ}, m.Pairwise (fun a b => version a < version b) → m.Nodup :=
    fun hm => hm.imp fun hab => mt (congrArg version) hab.ne
  have hperm : (l.filter fun t => M.Writes t k).Perm (l'.filter fun t => M.Writes t k) := by
    refine (List.perm_ext_iff_of_nodup (hnodup (hsorted hl)) (hnodup (hsorted hl'))).mpr ?_
    intro t
    simp only [List.mem_filter, decide_eq_true_eq]
    exact and_congr_left fun hw => hmem t hw
  have heq := hperm.eq_of_pairwise (fun a b _ _ hab hba => absurd hab (not_lt.mpr hba.le))
    (hsorted hl) (hsorted hl')
  rw [M.view_applyAll_filter s l k, M.view_applyAll_filter s l' k, heq]

end Versions

/-! ### Serial execution -/

/-- Transactions run one after another, each of which agrees with the state it
starts in. -/
def Serial (agrees : τ → S → Prop) : S → List τ → Prop
  | _, [] => True
  | s, t :: rest => agrees t s ∧ Serial agrees (M.apply s t) rest

theorem serial_iff (agrees : τ → S → Prop) (s : S) (l : List τ) :
    M.Serial agrees s l ↔ ∀ l₁ t l₂, l = l₁ ++ t :: l₂ → agrees t (M.applyAll s l₁) := by
  induction l generalizing s with
  | nil => simp [Serial]
  | cons a rest ih =>
    rw [Serial, ih]
    constructor
    · rintro ⟨hhead, hrest⟩ l₁ t l₂ heq
      cases l₁ with
      | nil =>
        obtain ⟨rfl, rfl⟩ := List.cons.inj heq
        exact hhead
      | cons b l₁ =>
        obtain ⟨rfl, hcut⟩ := List.cons.inj heq
        exact hrest l₁ t l₂ hcut
    · intro h
      refine ⟨h [] a rest rfl, fun l₁ t l₂ heq => ?_⟩
      exact h (a :: l₁) t l₂ (by rw [heq, List.cons_append])

/-! ### Validated histories -/

/-- Two members of a list stand in one order or the other. -/
theorem pairwise_either {R : τ → τ → Prop} (h : l.Pairwise R) (ht : t ∈ l) (hu : u ∈ l)
    (hne : t ≠ u) : R t u ∨ R u t := by
  have hsymm : Std.Symm fun a b => R a b ∨ R b a := ⟨fun _ _ => Or.symm⟩
  have heither : l.Pairwise fun a b => R a b ∨ R b a := h.imp Or.inl
  exact heither.forall ht hu hne

variable (version : τ → ℤ) (agrees : τ → S → Prop) (touches : τ → κ → Prop)
  (visible : τ → List τ)

/-- What optimistic validation establishes about a history of transactions,
listed in the order in which they were applied. -/
structure Validated (s : S) (history : List τ) : Prop where
  /-- Each transaction read the state made of the transactions visible to it. -/
  reads : ∀ t ∈ history, agrees t (M.applyAll s (visible t))
  /-- What is visible was applied before, in the same order. -/
  sublist : ∀ t ∈ history, (visible t).Sublist history
  /-- What is visible has a smaller version. -/
  older : ∀ t ∈ history, ∀ u ∈ visible t, version u < version t
  /-- A smaller version that writes what `t` read is visible to `t`. -/
  fresh : ∀ t ∈ history, ∀ u ∈ history, version u < version t →
    ∀ k, touches t k → M.Writes u k → u ∈ visible t
  /-- The writers of a key were applied in the order of their versions. -/
  ordered : ∀ k, history.Pairwise fun a b => M.Writes a k → M.Writes b k → version a < version b

namespace Validated

variable {M version agrees touches visible} {history order : List τ}
  (hvalid : M.Validated version agrees touches visible s history)
include hvalid

/-- Both orders leave the same value under every key. -/
theorem view_eq (hperm : order.Perm history)
    (hsorted : order.Pairwise fun a b => version a < version b) (k : κ) :
    M.view (M.applyAll s history) k = M.view (M.applyAll s order) k :=
  M.view_applyAll_congr version s (hvalid.ordered k) (hsorted.imp fun hab _ _ => hab)
    fun _ _ => hperm.symm.mem_iff

/-- The serial order of the versions leaves the state the history leaves. -/
theorem final (hext : ∀ s s' : S, (∀ k, M.view s k = M.view s' k) → s = s')
    (hperm : order.Perm history)
    (hsorted : order.Pairwise fun a b => version a < version b) :
    M.applyAll s order = M.applyAll s history :=
  hext _ _ fun k => (hvalid.view_eq hperm hsorted k).symm

/-- In the serial order of the versions, every transaction reads what it read in
the history. -/
theorem serial
    (hagrees : ∀ t s s', (∀ k, touches t k → M.view s k = M.view s' k) →
      agrees t s → agrees t s')
    (hperm : order.Perm history)
    (hsorted : order.Pairwise fun a b => version a < version b) :
    M.Serial agrees s order := by
  rw [M.serial_iff]
  intro l₁ t l₂ hcut
  have hmem : ∀ u, u ∈ order ↔ u ∈ history := fun u => hperm.mem_iff
  have ht : t ∈ history := (hmem t).mp (by simp [hcut])
  rw [hcut] at hsorted
  obtain ⟨hsorted₁, hsorted₂, hbefore⟩ := List.pairwise_append.mp hsorted
  refine hagrees t _ _ (fun k hk => ?_) (hvalid.reads t ht)
  refine M.view_applyAll_congr version s ((hvalid.ordered k).sublist (hvalid.sublist t ht))
    (hsorted₁.imp fun hab _ _ => hab) fun u hw => ⟨fun hu => ?_, fun hu => ?_⟩
  · -- a visible writer has a smaller version, so it stands before `t`
    have hlt := hvalid.older t ht u hu
    have hser : u ∈ l₁ ++ t :: l₂ := by
      rw [← hcut, hmem]
      exact (hvalid.sublist t ht).subset hu
    rcases List.mem_append.mp hser with h | h
    · exact h
    · rcases List.mem_cons.mp h with rfl | h
      · exact absurd hlt (lt_irrefl _)
      · have := (List.pairwise_cons.mp hsorted₂).1 u h
        omega
  · -- a writer that stands before `t` was visible to it
    have hu' : u ∈ history := by
      rw [← hmem, hcut]
      exact List.mem_append_left _ hu
    exact hvalid.fresh t ht u hu' (hbefore u hu t List.mem_cons_self) k hk hw

end Validated

end WriteModel

end RocketFS
