import Mathlib.Data.List.Induction

/-!
# Runs of a machine with inputs and outputs

A machine is a partial step function: in a state, an input either is not enabled
or leads to a next state and an output. A run records the input and the output
of every step, oldest first, and grows at its end, so that an argument about a
run is an induction over what was appended last.

## Main definitions

* `Run` — the runs from a given initial state
* `guarded` — the machine that takes only the steps that meet a condition
* `Along` — a condition every step of a trace meets, given what came before it
* `replay` — the run driven by a list of inputs, when all of them are enabled

## Main results

* `Run.invariant` — what holds initially and survives every step holds in every
  state reached
* `Run.invariant_along` — the same for the runs whose steps all meet a condition
* `Run.split`, `Run.append` — a run is cut and continued at any of its states
* `Run.project` — a run of a machine is one of any machine it follows step by step
* `run_of_replay`, `exists_replay` — a replayed list of inputs is a run, and when all
  inputs are enabled there is one
-/

namespace RocketFS

variable {σ ι ο : Type*} {step : σ → ι → Option (σ × ο)} {s₀ s s' : σ}

/-- A run of a machine: the inputs and outputs of its steps, oldest first, and the
state they lead to. -/
inductive Run (step : σ → ι → Option (σ × ο)) (s₀ : σ) : List (ι × ο) → σ → Prop
  | nil : Run step s₀ [] s₀
  | snoc {trace : List (ι × ο)} {s s' : σ} {i : ι} {o : ο} :
      Run step s₀ trace s → step s i = some (s', o) → Run step s₀ (trace ++ [(i, o)]) s'

namespace Run

/-- A property of traces and states that holds at the start and survives every
step holds along every run. -/
theorem invariant {P : List (ι × ο) → σ → Prop} (hinit : P [] s₀)
    (hstep : ∀ trace s i s' o, Run step s₀ trace s → P trace s → step s i = some (s', o) →
      P (trace ++ [(i, o)]) s')
    {trace : List (ι × ο)} (h : Run step s₀ trace s) : P trace s := by
  induction h with
  | nil => exact hinit
  | snoc hrun hs ih => exact hstep _ _ _ _ _ hrun ih hs

/-- The last step of a run. -/
theorem snoc_inv {trace : List (ι × ο)} {i : ι} {o : ο}
    (h : Run step s₀ (trace ++ [(i, o)]) s') :
    ∃ s, Run step s₀ trace s ∧ step s i = some (s', o) := by
  generalize htrace : trace ++ [(i, o)] = whole at h
  cases h with
  | nil => simp at htrace
  | snoc hrun hs =>
    obtain ⟨rfl, heq⟩ := List.append_inj' htrace rfl
    obtain ⟨rfl, rfl⟩ := Prod.mk.inj (List.singleton_inj.mp heq)
    exact ⟨_, hrun, hs⟩

/-- A run continued by a run from the state it reaches. -/
theorem append {trace trace' : List (ι × ο)} (h : Run step s₀ trace s)
    (h' : Run step s trace' s') : Run step s₀ (trace ++ trace') s' := by
  induction h' with
  | nil => simpa using h
  | snoc _ hs ih =>
    rw [← List.append_assoc]
    exact .snoc ih hs

/-- A run cut at any of its states. -/
theorem split {trace trace' : List (ι × ο)} (h : Run step s₀ (trace ++ trace') s') :
    ∃ s, Run step s₀ trace s ∧ Run step s trace' s' := by
  induction trace' using List.reverseRecOn generalizing s' with
  | nil => exact ⟨s', by simpa using h, .nil⟩
  | append_singleton rest last ih =>
    obtain ⟨i, o⟩ := last
    rw [← List.append_assoc] at h
    obtain ⟨u, hrun, hs⟩ := h.snoc_inv
    obtain ⟨v, hleft, hright⟩ := ih hrun
    exact ⟨v, hleft, .snoc hright hs⟩

/-- The step a run takes at a given place of its trace. -/
theorem step_at {trace trace' : List (ι × ο)} {i : ι} {o : ο}
    (h : Run step s₀ (trace ++ (i, o) :: trace') s') :
    ∃ s t, Run step s₀ trace s ∧ step s i = some (t, o) ∧ Run step t trace' s' := by
  have hassoc : trace ++ (i, o) :: trace' = (trace ++ [(i, o)]) ++ trace' := by simp
  rw [hassoc] at h
  obtain ⟨t, hleft, hright⟩ := h.split
  obtain ⟨u, hrun, hs⟩ := hleft.snoc_inv
  exact ⟨u, t, hrun, hs, hright⟩

/-- A machine that another one follows step by step: every step of the first is a run of
the second, between the states the two have in common. -/
theorem project {σ' ι' ο' : Type*} {step' : σ' → ι' → Option (σ' × ο')} (f : σ → σ')
    (g : ι × ο → List (ι' × ο'))
    (hstep : ∀ s i s' o, step s i = some (s', o) → Run step' (f s) (g (i, o)) (f s'))
    {trace : List (ι × ο)} (h : Run step s₀ trace s) :
    Run step' (f s₀) (trace.flatMap g) (f s) := by
  induction h with
  | nil => exact .nil
  | snoc _ hs ih =>
    rw [List.flatMap_append, List.flatMap_singleton]
    exact ih.append (hstep _ _ _ _ hs)

/-- A single step. -/
theorem single {i : ι} {o : ο} (hs : step s i = some (s', o)) : Run step s [(i, o)] s' := by
  have h : Run step s ([] ++ [(i, o)]) s' := .snoc .nil hs
  exact h

end Run

/-! ### Runs whose steps meet a condition -/

/-- The machine that takes only the steps that meet a condition on the state and the
input. -/
def guarded (step : σ → ι → Option (σ × ο)) (condition : σ → ι → Bool) (s : σ) (i : ι) :
    Option (σ × ο) :=
  if condition s i then step s i else none

theorem guarded_eq_some {condition : σ → ι → Bool} {i : ι} {next : σ × ο} :
    guarded step condition s i = some next ↔ condition s i ∧ step s i = some next := by
  unfold guarded
  split_ifs with h <;> simp [h]

theorem Run.of_guarded {condition : σ → ι → Bool} {trace : List (ι × ο)}
    (h : Run (guarded step condition) s₀ trace s) : Run step s₀ trace s := by
  induction h with
  | nil => exact .nil
  | snoc _ hs ih => exact .snoc ih (guarded_eq_some.mp hs).2

section Along

variable {α : Type*} {P : List α → α → Prop} {trace : List α} {e : α}

/-- Every entry of the trace meets the condition, given the entries before it. -/
def Along (P : List α → α → Prop) (trace : List α) : Prop :=
  ∀ before e after, trace = before ++ e :: after → P before e

@[simp] theorem along_nil : Along P [] := by
  intro before e after heq
  simp at heq

theorem along_snoc : Along P (trace ++ [e]) ↔ Along P trace ∧ P trace e := by
  constructor
  · intro h
    refine ⟨fun before e' after heq => ?_, h trace e [] rfl⟩
    exact h before e' (after ++ [e]) (by simp [heq])
  · rintro ⟨hbefore, hlast⟩ before e' after heq
    rcases after.eq_nil_or_concat with rfl | ⟨rest, last, rfl⟩
    · obtain ⟨rfl, hsingle⟩ := List.append_inj' heq rfl
      obtain rfl := List.singleton_inj.mp hsingle
      exact hlast
    · have hcut : trace ++ [e] = (before ++ e' :: rest) ++ [last] := by simp [heq]
      exact hbefore before e' rest (List.append_inj' hcut rfl).1

theorem along_iff_take :
    Along P trace ↔ ∀ n (h : n < trace.length), P (trace.take n) (trace.get ⟨n, h⟩) := by
  induction trace using List.reverseRecOn with
  | nil => simp
  | append_singleton trace e ih =>
    rw [along_snoc, ih]
    constructor
    · rintro ⟨hbefore, hlast⟩ n hn
      rcases Nat.lt_succ_iff_lt_or_eq.mp (by simpa using hn) with hlt | rfl
      · simpa [List.take_append_of_le_length (Nat.le_of_lt hlt), List.getElem_append_left hlt]
          using hbefore n hlt
      · simpa using hlast
    · intro h
      refine ⟨fun n hn => ?_, ?_⟩
      · have := h n (by simp; omega)
        simpa [List.take_append_of_le_length (Nat.le_of_lt hn),
          List.getElem_append_left hn] using this
      · simpa using h trace.length (by simp)

instance [∀ before e, Decidable (P before e)] : Decidable (Along P trace) :=
  decidable_of_iff _ along_iff_take.symm

end Along

/-- What holds at the start and survives every step that meets the condition holds
along every run whose steps all meet it. -/
theorem Run.invariant_along {P : List (ι × ο) → σ → Prop}
    {C : List (ι × ο) → ι × ο → Prop} (hinit : P [] s₀)
    (hstep : ∀ trace s i s' o, Run step s₀ trace s → P trace s → C trace (i, o) →
      step s i = some (s', o) → P (trace ++ [(i, o)]) s')
    {trace : List (ι × ο)} (h : Run step s₀ trace s) (hcond : Along C trace) : P trace s := by
  induction h with
  | nil => exact hinit
  | snoc hrun hs ih =>
    obtain ⟨hbefore, hlast⟩ := along_snoc.mp hcond
    exact hstep _ _ _ _ _ hrun (ih hbefore) hlast hs

/-- Drive the machine by a list of inputs; `none` when one of them is not enabled. -/
def replay (step : σ → ι → Option (σ × ο)) : σ → List ι → Option (List (ι × ο) × σ)
  | s, [] => some ([], s)
  | s, i :: rest =>
    match step s i with
    | none => none
    | some (s', o) =>
      match replay step s' rest with
      | none => none
      | some (trace, t) => some ((i, o) :: trace, t)

theorem run_of_replay {inputs : List ι} {trace : List (ι × ο)}
    (h : replay step s inputs = some (trace, s')) : Run step s trace s' := by
  induction inputs generalizing s trace with
  | nil =>
    obtain ⟨rfl, rfl⟩ := Prod.mk.inj (Option.some.inj h)
    exact .nil
  | cons i rest ih =>
    rw [replay] at h
    split at h
    · cases h
    · rename_i t o hs
      split at h
      · cases h
      · rename_i trace' u hrest
        obtain ⟨rfl, rfl⟩ := Prod.mk.inj (Option.some.inj h)
        have hfirst : Run step s ([] ++ [(i, o)]) t := .snoc .nil hs
        exact hfirst.append (ih hrest)

theorem map_fst_of_replay {inputs : List ι} {trace : List (ι × ο)}
    (h : replay step s inputs = some (trace, s')) : trace.map Prod.fst = inputs := by
  induction inputs generalizing s s' trace with
  | nil =>
    obtain ⟨rfl, _⟩ := Prod.mk.inj (Option.some.inj h)
    rfl
  | cons i rest ih =>
    rw [replay] at h
    split at h
    · cases h
    · split at h
      · cases h
      · rename_i trace' u hrest
        obtain ⟨rfl, _⟩ := Prod.mk.inj (Option.some.inj h)
        rw [List.map_cons, ih hrest]

/-- A machine that enables every input in the states with a property, and keeps the
property, can be driven by any list of inputs. -/
theorem exists_replay {P : σ → Prop}
    (hstep : ∀ s i, P s → ∃ s' o, step s i = some (s', o) ∧ P s') (hs : P s) (inputs : List ι) :
    ∃ trace s', replay step s inputs = some (trace, s') := by
  induction inputs generalizing s with
  | nil => exact ⟨[], s, rfl⟩
  | cons i rest ih =>
    obtain ⟨t, o, hfirst, ht⟩ := hstep s i hs
    obtain ⟨trace, u, hrest⟩ := ih ht
    refine ⟨(i, o) :: trace, u, ?_⟩
    simp only [replay, hfirst, hrest]

/-- A replayed run, with something of the state it reaches. -/
theorem exists_run_of_replay_eq {α : Type*} (inputs : List ι) (f : σ → α) {a : α}
    {trace : List (ι × ο)}
    (h : (replay step s inputs).map (fun p => (p.1, f p.2)) = some (trace, a)) :
    ∃ s', Run step s trace s' ∧ f s' = a := by
  obtain ⟨⟨_, s'⟩, hreplay, hpair⟩ := Option.map_eq_some_iff.mp h
  obtain ⟨rfl, rfl⟩ := Prod.mk.inj hpair
  exact ⟨s', run_of_replay hreplay, rfl⟩

/-- A run that is stopped on its way. -/
theorem exists_runs_of_replay_eq {α : Type*} (inputs inputs' : List ι) (f : σ → α) {a : α}
    {trace trace' : List (ι × ο)}
    (h : ((replay step s inputs).bind fun p => (replay step p.2 inputs').map fun q =>
      (p.1, f p.2, q.1)) = some (trace, a, trace')) :
    ∃ s₁ s₂, Run step s trace s₁ ∧ f s₁ = a ∧ Run step s₁ trace' s₂ := by
  obtain ⟨⟨_, s₁⟩, hreplay, hrest⟩ := Option.bind_eq_some_iff.mp h
  obtain ⟨⟨_, s₂⟩, hreplay', hpair⟩ := Option.map_eq_some_iff.mp hrest
  simp only [Prod.mk.injEq] at hpair
  obtain ⟨rfl, rfl, rfl⟩ := hpair
  exact ⟨s₁, s₂, run_of_replay hreplay, rfl, run_of_replay hreplay'⟩

theorem exists_run_of_replay (inputs : List ι) {trace : List (ι × ο)}
    (h : (replay step s inputs).map Prod.fst = some trace) : ∃ s', Run step s trace s' := by
  obtain ⟨⟨_, s'⟩, hreplay, rfl⟩ := Option.map_eq_some_iff.mp h
  exact ⟨s', run_of_replay hreplay⟩

end RocketFS
