import Mathlib.Data.List.Forall2
import Mathlib.Data.List.Induction
import Mathlib.Data.List.Nodup

/-!
# Linearizability

Operations on a shared object overlap: each is invoked, takes a while, and responds.
The object is linearizable when every history could have come from executing the
operations one at a time, each somewhere between its invocation and its response.

An order of execution is built along a run, one rule for each thing that can happen:
an operation is invoked, takes effect, or responds. An operation that responds must have
taken effect before, with that output. That the order respects real time follows from
the rules and need not be proved again for a machine.

## Main definitions

* `Visible` — invocations and responses; a history is a list of them
* `Sequential` — operations executed one at a time
* `Linearizes` — an order of execution that explains a history
* `TakesEffect` — the states before and after one of the operations

## Main results

* `Linearizes.invoke`, `Linearizes.effect`, `Linearizes.respond` — the three rules
* `Linearizes.refine` — the same order explains a history one level up, when every
  operation there stays around one below and its effect is a step of the level above
* `Linearizes.append`, `Linearizes.rename` — histories of one object after another
-/

namespace RocketFS

variable {σ σ' τ τ' ι ι' ο ο' : Type*}

/-- What is seen of the operations on an object; `τ` names the operations. -/
inductive Visible (τ ι ο : Type*)
  | invoke (op : τ) (input : ι)
  | respond (op : τ) (output : ο)
  deriving DecidableEq

/-- An operation that has taken effect. -/
structure Effect (τ ι ο : Type*) where
  op : τ
  input : ι
  output : ο

/-- The operation an event is about. -/
def Visible.op : Visible τ ι ο → τ
  | .invoke op _ => op
  | .respond op _ => op

/-- The same event with another name for the operation. -/
def Visible.rename (f : τ → τ') : Visible τ ι ο → Visible τ' ι ο
  | .invoke op input => .invoke (f op) input
  | .respond op output => .respond (f op) output

@[simp]
theorem Visible.op_rename (f : τ → τ') (e : Visible τ ι ο) : (e.rename f).op = f e.op := by
  cases e <;> rfl

theorem mem_map_rename_invoke {f : τ → τ'} {op : τ'} {input : ι} {history : List (Visible τ ι ο)} :
    .invoke op input ∈ history.map (Visible.rename f) ↔
      ∃ t, op = f t ∧ .invoke t input ∈ history := by
  rw [List.mem_map]
  constructor
  · rintro ⟨_ | _, hmem, heq⟩
    · obtain ⟨rfl, rfl⟩ := Visible.invoke.inj heq
      exact ⟨_, rfl, hmem⟩
    · cases heq
  · rintro ⟨t, rfl, hmem⟩
    exact ⟨_, hmem, rfl⟩

theorem mem_map_rename_respond {f : τ → τ'} {op : τ'} {output : ο}
    {history : List (Visible τ ι ο)} :
    .respond op output ∈ history.map (Visible.rename f) ↔
      ∃ t, op = f t ∧ .respond t output ∈ history := by
  rw [List.mem_map]
  constructor
  · rintro ⟨_ | _, hmem, heq⟩
    · cases heq
    · obtain ⟨rfl, rfl⟩ := Visible.respond.inj heq
      exact ⟨_, rfl, hmem⟩
  · rintro ⟨t, rfl, hmem⟩
    exact ⟨_, hmem, rfl⟩

/-- The same effect with another name for the operation. -/
def Effect.rename (f : τ → τ') (e : Effect τ ι ο) : Effect τ' ι ο := ⟨f e.op, e.input, e.output⟩

/-- Operations executed one at a time: `spec` says what one of them may answer and which
state it leaves behind. -/
inductive Sequential (spec : σ → ι → ο → σ → Prop) (s₀ : σ) : List (Effect τ ι ο) → σ → Prop
  | nil : Sequential spec s₀ [] s₀
  | snoc {order : List (Effect τ ι ο)} {e : Effect τ ι ο} {s s' : σ} :
      Sequential spec s₀ order s → spec s e.input e.output s' →
      Sequential spec s₀ (order ++ [e]) s'

/-- The order explains the history: executed one at a time in this order, the operations
answer what they have responded, and an operation that responded before another was
invoked comes before it. Operations that have not responded may or may not be in it. -/
structure Linearizes (spec : σ → ι → ο → σ → Prop) (s₀ : σ) (history : List (Visible τ ι ο))
    (order : List (Effect τ ι ο)) (s : σ) : Prop where
  sequential : Sequential spec s₀ order s
  nodup : (order.map Effect.op).Nodup
  invoked : ∀ e ∈ order, .invoke e.op e.input ∈ history
  responded : ∀ op output, .respond op output ∈ history →
    ∃ e ∈ order, e.op = op ∧ e.output = output
  realTime : ∀ op output op' input,
    [.respond op output, .invoke op' input].Sublist history → op' ∈ order.map Effect.op →
      [op, op'].Sublist (order.map Effect.op)

/-- An execution one level up: every effect is translated to one there, with the help of
an invariant of the states. -/
theorem Sequential.refine {spec : σ → ι → ο → σ → Prop} {spec' : σ' → ι' → ο' → σ' → Prop}
    {s₀ s : σ} {order : List (Effect τ ι ο)} (h : Sequential spec s₀ order s) (f : σ → σ')
    {R : Effect τ ι ο → Effect τ ι' ο' → Prop} {P : σ → Prop} (hinit : P s₀)
    (hstep : ∀ e ∈ order, ∀ s s', P s → spec s e.input e.output s' →
      P s' ∧ ∃ e', R e e' ∧ spec' (f s) e'.input e'.output (f s')) :
    P s ∧ ∃ order', List.Forall₂ R order order' ∧ Sequential spec' (f s₀) order' (f s) := by
  induction h with
  | nil => exact ⟨hinit, [], .nil, .nil⟩
  | @snoc order e s s' _ hspec ih =>
    obtain ⟨hP, order', hrel, hbefore⟩ := ih fun e he => hstep e (List.mem_append_left _ he)
    obtain ⟨hP', e', he', hspec'⟩ :=
      hstep e (List.mem_append_right _ List.mem_cons_self) s s' hP hspec
    exact ⟨hP', order' ++ [e'], List.rel_append hrel (.cons he' .nil), .snoc hbefore hspec'⟩

/-- The states before and after one of the operations. -/
theorem Sequential.split {spec : σ → ι → ο → σ → Prop} {s₀ s : σ}
    {before after : List (Effect τ ι ο)} {e : Effect τ ι ο}
    (h : Sequential spec s₀ (before ++ e :: after) s) :
    ∃ s₁ s₂, Sequential spec s₀ before s₁ ∧ spec s₁ e.input e.output s₂ ∧
      Sequential spec s₂ after s := by
  induction after using List.reverseRecOn generalizing s with
  | nil =>
    generalize hall : before ++ [e] = all at h
    cases h with
    | nil => simp at hall
    | snoc hbefore hspec =>
      obtain ⟨rfl, hlast⟩ := List.append_inj' hall rfl
      obtain rfl := List.singleton_inj.mp hlast
      exact ⟨_, _, hbefore, hspec, .nil⟩
  | append_singleton after last ih =>
    generalize hall : before ++ e :: (after ++ [last]) = all at h
    cases h with
    | nil => simp at hall
    | @snoc order last' _ _ hrest hspec =>
      have hcut : (before ++ e :: after) ++ [last] = order ++ [last'] := by simpa using hall
      obtain ⟨rfl, hlast⟩ := List.append_inj' hcut rfl
      obtain rfl := List.singleton_inj.mp hlast
      obtain ⟨s₁, s₂, hbefore, he, hafter⟩ := ih hrest
      exact ⟨s₁, s₂, hbefore, he, .snoc hafter hspec⟩

/-- Operations executed one at a time, and then others. -/
theorem Sequential.append {spec : σ → ι → ο → σ → Prop} {s₀ s s' : σ}
    {order order' : List (Effect τ ι ο)} (h : Sequential spec s₀ order s)
    (h' : Sequential spec s order' s') : Sequential spec s₀ (order ++ order') s' := by
  induction h' with
  | nil =>
    rw [List.append_nil]
    exact h
  | snoc _ hspec ih =>
    rw [← List.append_assoc]
    exact .snoc ih hspec

/-- What every operation keeps is kept by all of them. -/
theorem Sequential.invariant {spec : σ → ι → ο → σ → Prop} {s₀ s : σ}
    {order : List (Effect τ ι ο)} (h : Sequential spec s₀ order s) {P : σ → Prop} (hinit : P s₀)
    (hstep : ∀ e ∈ order, ∀ s s', P s → spec s e.input e.output s' → P s') : P s := by
  induction h with
  | nil => exact hinit
  | @snoc order e s s' _ hspec ih =>
    have hbefore := ih fun e he => hstep e (List.mem_append_left _ he)
    exact hstep e (List.mem_append_right _ List.mem_cons_self) s s' hbefore hspec

/-- The operation takes effect in the state `s₁` of the execution, and leaves `s₂` behind. -/
def TakesEffect (spec : σ → ι → ο → σ → Prop) (s₀ : σ) (order : List (Effect τ ι ο)) (s : σ)
    (e : Effect τ ι ο) (s₁ s₂ : σ) : Prop :=
  ∃ before after, order = before ++ e :: after ∧ Sequential spec s₀ before s₁ ∧
    spec s₁ e.input e.output s₂ ∧ Sequential spec s₂ after s

section Pairs

/-- An element of one of two related lists has a partner in the other. -/
theorem exists_of_forall₂ {α β : Type*} {R : α → β → Prop} {l : List α} {l' : List β}
    (h : List.Forall₂ R l l') {a : α} (ha : a ∈ l) : ∃ b ∈ l', R a b := by
  induction h with
  | nil => exact absurd ha List.not_mem_nil
  | @cons x y _ _ hxy _ ih =>
    rcases List.mem_cons.mp ha with rfl | hrest
    · exact ⟨y, List.mem_cons_self, hxy⟩
    · obtain ⟨b, hb, hR⟩ := ih hrest
      exact ⟨b, List.mem_cons_of_mem _ hb, hR⟩

variable {α : Type*} {a b c : α} {l : List α}

/-- A pair in a list with one more element is in the list, or ends with that element. -/
theorem pair_sublist_snoc :
    [a, b].Sublist (l ++ [c]) ↔ [a, b].Sublist l ∨ (a ∈ l ∧ b = c) := by
  constructor
  · intro h
    obtain ⟨front, back, heq, hfront, hback⟩ := List.sublist_append_iff.mp h
    rcases List.sublist_singleton.mp hback with rfl | rfl
    · rw [List.append_nil] at heq
      exact .inl (heq ▸ hfront)
    · have hcut : [a] ++ [b] = front ++ [c] := heq
      obtain ⟨rfl, hlast⟩ := List.append_inj' hcut rfl
      exact .inr ⟨List.singleton_sublist.mp hfront, List.singleton_inj.mp hlast⟩
  · rintro (h | ⟨ha, rfl⟩)
    · exact h.trans (List.sublist_append_left l [c])
    · exact (List.singleton_sublist.mpr ha).append (List.Sublist.refl [b])

/-- In a list without repetitions, nothing in front of an element comes after it. -/
theorem not_sublist_of_nodup {before after : List α} (h : (before ++ a :: after).Nodup)
    (hb : b ∈ before) : ¬ [a, b].Sublist (before ++ a :: after) := by
  intro hsub
  obtain ⟨front, back, hcut, ha, hback⟩ := List.cons_sublist_iff.mp hsub
  have hbback : b ∈ back := List.singleton_sublist.mp hback
  rw [hcut] at h
  obtain ⟨_, _, hdisjoint⟩ := List.nodup_append.mp h
  rcases List.append_eq_append_iff.mp hcut with ⟨mid, rfl, _⟩ | ⟨mid, rfl, rfl⟩
  · exact hdisjoint b (List.mem_append_left _ hb) b hbback rfl
  · exact hdisjoint a ha a (List.mem_append_right _ List.mem_cons_self) rfl

end Pairs

namespace Linearizes

variable {spec : σ → ι → ο → σ → Prop} {s₀ s s' : σ} {history : List (Visible τ ι ο)}
  {order : List (Effect τ ι ο)} {op : τ} {input : ι} {output : ο}
  {spec' : σ' → ι' → ο' → σ' → Prop}

theorem init : Linearizes (τ := τ) spec s₀ [] [] s₀ where
  sequential := .nil
  nodup := List.nodup_nil
  invoked e h := absurd h List.not_mem_nil
  responded op output h := absurd h List.not_mem_nil
  realTime op output op' input h := by cases h

/-- An operation that has taken effect was invoked. -/
theorem not_mem_order (h : Linearizes spec s₀ history order s)
    (hnew : ∀ input, .invoke op input ∉ history) : op ∉ order.map Effect.op := by
  intro hmem
  obtain ⟨e, he, rfl⟩ := List.mem_map.mp hmem
  exact hnew e.input (h.invoked e he)

/-- An operation is invoked that was not invoked before. -/
theorem invoke (h : Linearizes spec s₀ history order s)
    (hnew : ∀ input, .invoke op input ∉ history) :
    Linearizes spec s₀ (history ++ [.invoke op input]) order s where
  sequential := h.sequential
  nodup := h.nodup
  invoked e he := List.mem_append_left _ (h.invoked e he)
  responded op' output hmem := by
    refine h.responded op' output ?_
    simpa using hmem
  realTime t output u i hpair hmem := by
    rcases pair_sublist_snoc.mp hpair with hold | ⟨_, heq⟩
    · exact h.realTime t output u i hold hmem
    · -- the operation that is invoked has had no effect yet
      obtain ⟨rfl, _⟩ := Visible.invoke.inj heq
      exact absurd hmem (h.not_mem_order hnew)

/-- An operation that was invoked takes effect. -/
theorem effect (h : Linearizes spec s₀ history order s) (hinvoked : .invoke op input ∈ history)
    (hnew : op ∉ order.map Effect.op) (hspec : spec s input output s') :
    Linearizes spec s₀ history (order ++ [⟨op, input, output⟩]) s' where
  sequential := .snoc h.sequential hspec
  nodup := by
    rw [List.map_append, List.map_singleton, ← List.concat_eq_append]
    exact h.nodup.concat hnew
  invoked e he := by
    rcases List.mem_append.mp he with hold | hlast
    · exact h.invoked e hold
    · obtain rfl := List.mem_singleton.mp hlast
      exact hinvoked
  responded op' output' hmem := by
    obtain ⟨e, he, heq⟩ := h.responded op' output' hmem
    exact ⟨e, List.mem_append_left _ he, heq⟩
  realTime t o u i hpair hmem := by
    rw [List.map_append, List.map_singleton] at hmem ⊢
    rcases List.mem_append.mp hmem with hold | hlast
    · exact (h.realTime t o u i hpair hold).trans (List.sublist_append_left _ _)
    · -- whatever responded before has had its effect before
      obtain rfl := List.mem_singleton.mp hlast
      obtain ⟨e, he, rfl, _⟩ := h.responded t o (hpair.subset List.mem_cons_self)
      exact pair_sublist_snoc.mpr (.inr ⟨List.mem_map_of_mem he, rfl⟩)

/-- An operation responds what it answered when it took effect. -/
theorem respond (h : Linearizes spec s₀ history order s) {e : Effect τ ι ο} (he : e ∈ order) :
    Linearizes spec s₀ (history ++ [.respond e.op e.output]) order s where
  sequential := h.sequential
  nodup := h.nodup
  invoked e' he' := List.mem_append_left _ (h.invoked e' he')
  responded op output hmem := by
    rcases List.mem_append.mp hmem with hold | hlast
    · exact h.responded op output hold
    · obtain ⟨rfl, rfl⟩ := Visible.respond.inj (List.mem_singleton.mp hlast)
      exact ⟨e, he, rfl, rfl⟩
  realTime t o u i hpair hmem := by
    rcases pair_sublist_snoc.mp hpair with hold | ⟨_, heq⟩
    · exact h.realTime t o u i hold hmem
    · cases heq

/-- An operation took effect with the output it has responded. -/
theorem output_eq (h : Linearizes spec s₀ history order s) {e : Effect τ ι ο} (he : e ∈ order)
    (hmem : .respond e.op output ∈ history) : e.output = output := by
  obtain ⟨e', he', hop, rfl⟩ := h.responded e.op output hmem
  rw [List.inj_on_of_nodup_map h.nodup he' he hop]

/-- An operation that has responded has taken effect in some state. -/
theorem exists_step (h : Linearizes spec s₀ history order s)
    (hmem : .respond op output ∈ history) :
    ∃ before after e s₁ s₂, order = before ++ e :: after ∧ e.op = op ∧ e.output = output ∧
      Sequential spec s₀ before s₁ ∧ spec s₁ e.input e.output s₂ ∧ Sequential spec s₂ after s := by
  obtain ⟨e, he, hop, houtput⟩ := h.responded op output hmem
  obtain ⟨before, after, rfl⟩ := List.append_of_mem he
  obtain ⟨s₁, s₂, hbefore, hspec, hafter⟩ := h.sequential.split
  exact ⟨before, after, e, s₁, s₂, rfl, hop, houtput, hbefore, hspec, hafter⟩

theorem exists_takesEffect (h : Linearizes spec s₀ history order s)
    (hmem : .respond op output ∈ history) :
    ∃ (e : Effect τ ι ο) (s₁ s₂ : σ), e.op = op ∧ e.output = output ∧
      TakesEffect spec s₀ order s e s₁ s₂ := by
  obtain ⟨before, after, e, s₁, s₂, hcut, hop, houtput, hbefore, hspec, hafter⟩ :=
    h.exists_step hmem
  exact ⟨e, s₁, s₂, hop, houtput, before, after, hcut, hbefore, hspec, hafter⟩

/-- An operation that is invoked after another has responded stands after it in the order. -/
theorem mem_of_later {before rest : List (Effect τ ι ο)} {e : Effect τ ι ο} {op' : τ} {input' : ι}
    {output' : ο} (h : Linearizes spec s₀ history (before ++ e :: rest) s)
    (hpair : [.respond e.op output, .invoke op' input'].Sublist history)
    (hmem : .respond op' output' ∈ history) :
    ∃ e' ∈ rest, e'.op = op' ∧ e'.output = output' := by
  obtain ⟨e', he', rfl, houtput'⟩ := h.responded op' output' hmem
  refine ⟨e', ?_, rfl, houtput'⟩
  -- what stands after `e` in the order of the operations stands after it in the list
  have hsub := h.realTime e.op output e'.op input' hpair (List.mem_map_of_mem he')
  have hnodup := h.nodup
  rw [List.map_append, List.map_cons] at hsub hnodup
  rcases List.mem_append.mp he' with hearly | hlate
  · exact absurd hsub (not_sublist_of_nodup hnodup (List.mem_map_of_mem hearly))
  · rcases List.mem_cons.mp hlate with rfl | hrest
    · exact absurd (hsub.nodup hnodup) (by simp)
    · exact hrest

/-- An operation that is invoked after another has responded takes effect after it. -/
theorem exists_steps {op' : τ} {input' : ι} {output' : ο}
    (h : Linearizes spec s₀ history order s)
    (hpair : [.respond op output, .invoke op' input'].Sublist history)
    (hmem : .respond op' output' ∈ history) :
    ∃ before between after e e' s₁ s₂ s₃ s₄,
      order = before ++ e :: (between ++ e' :: after) ∧ e.op = op ∧ e.output = output ∧
      e'.op = op' ∧ e'.output = output' ∧ Sequential spec s₀ before s₁ ∧
      spec s₁ e.input e.output s₂ ∧ Sequential spec s₂ between s₃ ∧
      spec s₃ e'.input e'.output s₄ := by
  obtain ⟨before, rest, e, s₁, s₂, rfl, rfl, houtput, hbefore, hspec, hrest⟩ :=
    h.exists_step (hpair.subset List.mem_cons_self)
  obtain ⟨e', hlater, hop', houtput'⟩ := h.mem_of_later hpair hmem
  obtain ⟨between, after, rfl⟩ := List.append_of_mem hlater
  obtain ⟨s₃, s₄, hbetween, hspec', _⟩ := hrest.split
  exact ⟨before, between, after, e, e', s₁, s₂, s₃, s₄, rfl, rfl, houtput, hop', houtput', hbefore,
    hspec, hbetween, hspec'⟩

/-- The next of a series of operations, each invoked after the one before has responded. -/
theorem takesEffect_later {e : Effect τ ι ο} {op' : τ} {input' : ι} {output' : ο} {s₁ s₂ : σ}
    (h : Linearizes spec s₀ history order s) (he : TakesEffect spec s₀ order s e s₁ s₂)
    (hpair : [.respond e.op output, .invoke op' input'].Sublist history)
    (hmem : .respond op' output' ∈ history) :
    ∃ (e' : Effect τ ι ο) (between : List (Effect τ ι ο)) (s₃ s₄ : σ), e'.op = op' ∧
      e'.output = output' ∧ Sequential spec s₂ between s₃ ∧
      TakesEffect spec s₀ order s e' s₃ s₄ := by
  obtain ⟨before, rest, rfl, hbefore, hspec, hrest⟩ := he
  obtain ⟨e', hlater, hop', houtput'⟩ := h.mem_of_later hpair hmem
  obtain ⟨between, after, rfl⟩ := List.append_of_mem hlater
  obtain ⟨s₃, s₄, hbetween, hspec', hafter⟩ := hrest.split
  refine ⟨e', between, s₃, s₄, hop', houtput', hbetween, before ++ e :: between, after, ?_, ?_,
    hspec', hafter⟩
  · rw [List.append_assoc, List.cons_append]
  · rw [List.append_cons]
    exact (hbefore.snoc hspec).append hbetween

/-- A history one level up. Every operation there is one below, it responds only after
the one below has, and it is invoked before that one is. -/
theorem refine {history' : List (Visible τ ι' ο')} (h : Linearizes spec s₀ history order s)
    (f : σ → σ') {R : Effect τ ι ο → Effect τ ι' ο' → Prop} (hop : ∀ e e', R e e' → e'.op = e.op)
    {P : σ → Prop} (hinit : P s₀)
    (hstep : ∀ e ∈ order, ∀ s s', P s → spec s e.input e.output s' →
      P s' ∧ ∃ e', R e e' ∧ spec' (f s) e'.input e'.output (f s'))
    (hinvoked : ∀ e ∈ order, ∀ e', R e e' → .invoke e.op e'.input ∈ history')
    (hresponded : ∀ op output, .respond op output ∈ history' →
      (∃ below, .respond op below ∈ history) ∧
        ∀ e ∈ order, ∀ e', R e e' → e.op = op → e'.output = output)
    (hrealTime : ∀ op output op' input,
      [.respond op output, .invoke op' input].Sublist history' →
      (∃ below, .invoke op' below ∈ history) →
      ∃ output input, [.respond op output, .invoke op' input].Sublist history) :
    ∃ order', Linearizes spec' (f s₀) history' order' (f s) := by
  obtain ⟨_, order', hrel, hsequential⟩ := h.sequential.refine f hinit hstep
  have hops : order'.map Effect.op = order.map Effect.op := by
    have hmap : List.Forall₂ (· = ·) (order'.map Effect.op) (order.map Effect.op) := by
      rw [List.forall₂_map_left_iff, List.forall₂_map_right_iff]
      exact (hrel.imp hop).flip
    exact List.forall₂_eq_eq_eq ▸ hmap
  refine ⟨order', hsequential, hops ▸ h.nodup, fun e' he' => ?_, fun op output hmem => ?_,
    fun op output op' input hpair hmem => ?_⟩
  · obtain ⟨e, he, hR⟩ := exists_of_forall₂ hrel.flip he'
    rw [hop e e' hR]
    exact hinvoked e he e' hR
  · obtain ⟨⟨below, hbelow⟩, houtput⟩ := hresponded op output hmem
    obtain ⟨e, he, rfl, _⟩ := h.responded op below hbelow
    obtain ⟨e', he', hR⟩ := exists_of_forall₂ hrel he
    exact ⟨e', he', hop e e' hR, houtput e he e' hR rfl⟩
  · rw [hops] at hmem ⊢
    obtain ⟨e, he, rfl⟩ := List.mem_map.mp hmem
    obtain ⟨o, i, hbelow⟩ := hrealTime op output e.op input hpair ⟨_, h.invoked e he⟩
    exact h.realTime op o e.op i hbelow hmem

/-- The history of one object, continued on the state it has left by other operations. -/
theorem append {history' : List (Visible τ ι ο)} {order' : List (Effect τ ι ο)}
    (h : Linearizes spec s₀ history order s) (h' : Linearizes spec s history' order' s')
    (hnew : ∀ op input input', .invoke op input ∈ history → .invoke op input' ∉ history') :
    Linearizes spec s₀ (history ++ history') (order ++ order') s' where
  sequential := h.sequential.append h'.sequential
  nodup := by
    rw [List.map_append, List.nodup_append]
    refine ⟨h.nodup, h'.nodup, fun op hop op' hop' heq => ?_⟩
    obtain ⟨e, he, rfl⟩ := List.mem_map.mp hop
    obtain ⟨e', he', rfl⟩ := List.mem_map.mp hop'
    exact hnew _ _ e'.input (h.invoked e he) (heq ▸ h'.invoked e' he')
  invoked e he := by
    rcases List.mem_append.mp he with hold | hlate
    · exact List.mem_append_left _ (h.invoked e hold)
    · exact List.mem_append_right _ (h'.invoked e hlate)
  responded op output hmem := by
    rcases List.mem_append.mp hmem with hold | hlate
    · obtain ⟨e, he, heq⟩ := h.responded op output hold
      exact ⟨e, List.mem_append_left _ he, heq⟩
    · obtain ⟨e, he, heq⟩ := h'.responded op output hlate
      exact ⟨e, List.mem_append_right _ he, heq⟩
  realTime op output op' input hpair hmem := by
    rw [List.map_append, List.mem_append] at hmem
    rw [List.map_append]
    obtain ⟨front, back, hcut, hfront, hback⟩ := List.sublist_append_iff.mp hpair
    rcases front with _ | ⟨first, _ | ⟨second, rest⟩⟩
    · -- both in the second history
      obtain rfl : _ = back := hcut
      refine (h'.realTime op output op' input hback (hmem.resolve_left fun hold => ?_)).trans
        (List.sublist_append_right _ _)
      obtain ⟨e, he, rfl⟩ := List.mem_map.mp hold
      exact hnew _ _ input (h.invoked e he) (hback.subset (by simp))
    · -- one in each of them
      obtain ⟨rfl, rfl⟩ := List.cons.inj hcut
      have hop : op ∈ order.map Effect.op := by
        obtain ⟨e, he, rfl, _⟩ := h.responded op output (List.singleton_sublist.mp hfront)
        exact List.mem_map_of_mem he
      have hop' : op' ∈ order'.map Effect.op := by
        refine hmem.resolve_left fun hold => ?_
        obtain ⟨e, he, rfl⟩ := List.mem_map.mp hold
        exact hnew _ _ input (h.invoked e he) (List.singleton_sublist.mp hback)
      exact (List.singleton_sublist.mpr hop).append (List.singleton_sublist.mpr hop')
    · -- both in the first history
      obtain ⟨rfl, htail⟩ := List.cons.inj hcut
      obtain ⟨rfl, hrest⟩ := List.cons.inj htail
      obtain ⟨rfl, rfl⟩ := List.append_eq_nil_iff.mp hrest.symm
      refine (h.realTime op output op' input hfront (hmem.resolve_right fun hlate => ?_)).trans
        (List.sublist_append_left _ _)
      obtain ⟨e, he, rfl⟩ := List.mem_map.mp hlate
      exact hnew _ input _ (hfront.subset (by simp)) (h'.invoked e he)

/-- Other names for the operations. -/
theorem rename (h : Linearizes spec s₀ history order s) {f : τ → τ'}
    (hf : Function.Injective f) :
    Linearizes spec s₀ (history.map (Visible.rename f)) (order.map (Effect.rename f)) s := by
  have hops : (order.map (Effect.rename f)).map Effect.op = (order.map Effect.op).map f := by
    rw [List.map_map, List.map_map]
    rfl
  constructor
  case sequential =>
    have hsequential := h.sequential
    clear h hops
    induction hsequential with
    | nil => exact .nil
    | @snoc order e _ _ _ hspec ih =>
      rw [List.map_append]
      exact .snoc (e := e.rename f) ih hspec
  case nodup =>
    rw [hops]
    exact h.nodup.map hf
  case invoked =>
    intro e hmem
    obtain ⟨e, he, rfl⟩ := List.mem_map.mp hmem
    exact List.mem_map.mpr ⟨_, h.invoked e he, rfl⟩
  case responded =>
    intro op output hmem
    obtain ⟨op, rfl, hevent⟩ := mem_map_rename_respond.mp hmem
    obtain ⟨e, he, rfl, rfl⟩ := h.responded op output hevent
    exact ⟨_, List.mem_map_of_mem he, rfl, rfl⟩
  case realTime =>
    intro op output op' input hrenamed hmem
    rw [hops] at hmem ⊢
    obtain ⟨pair, hpair, heq⟩ := List.sublist_map_iff.mp hrenamed
    obtain ⟨_ | ⟨u, o⟩, rest, rfl, hfirst, hrest⟩ := List.map_eq_cons_iff.mp heq.symm
    · cases hfirst
    obtain ⟨⟨u', i⟩ | _, rest, rfl, hsecond, hrest⟩ := List.map_eq_cons_iff.mp hrest
    · obtain rfl := List.map_eq_nil_iff.mp hrest
      obtain ⟨rfl, rfl⟩ := Visible.respond.inj hfirst
      obtain ⟨rfl, rfl⟩ := Visible.invoke.inj hsecond
      exact (h.realTime u o u' i hpair ((List.mem_map_of_injective hf).mp hmem)).map f
    · cases hsecond

/-- The same execution on other states. -/
theorem mapState {spec' : σ' → ι → ο → σ' → Prop} (h : Linearizes spec s₀ history order s)
    (f : σ → σ') (hstep : ∀ s i o s', spec s i o s' → spec' (f s) i o (f s')) :
    Linearizes spec' (f s₀) history order (f s) where
  sequential := by
    obtain ⟨_, order', hrel, hsequential⟩ := h.sequential.refine f (R := Eq) (P := fun _ => True)
      trivial fun e _ s s' _ hspec => ⟨trivial, e, rfl, hstep s e.input e.output s' hspec⟩
    have heq : order = order' := List.forall₂_eq_eq_eq ▸ hrel
    rwa [← heq] at hsequential
  nodup := h.nodup
  invoked := h.invoked
  responded := h.responded
  realTime := h.realTime

end Linearizes

end RocketFS
