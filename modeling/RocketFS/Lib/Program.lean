import Mathlib.Data.Nat.Notation
import Mathlib.Tactic.Basic

/-!
# Programs that call operations

A program is the tree of the calls it makes: at each node an operation, and for
each answer the rest of the program. It ends with a value or with an error that is
not handled inside it. A program can be executed from start to end by a handler,
or one call at a time among other programs, and both ways are reasoned about with
the same rules of pre- and postconditions.

## Main definitions

* `Program` — programs over a type of operations, a monad
* `Program.exec`, `Program.calls` — execution by a handler, and the calls it makes
* `Program.eval` — execution when the answers do not depend on earlier calls
* `Program.Wp` — a guard holds at every call and a postcondition at the end,
  whatever answers the calls get
* `Program.Within` — the calls weigh at most so much, whatever answers they get

## Main results

* `Program.exec_bind`, `Program.eval_bind` — execution of a sequence
* `Program.wp_bind`, `Program.Wp.mono` — the rules for sequences and consequences
* `Program.Wp.at_call`, `Program.Wp.after_call` — what holds at a call, and after it
* `Program.Within.bind` — the weights of a sequence add up
-/

namespace RocketFS

/-- A program: it is finished, or it calls an operation and goes on with the
answer. -/
inductive Program (Op : Type) (Answer : Op → Type) (ε α : Type) : Type
  | done (result : Except ε α)
  | call (op : Op) (next : Answer op → Program Op Answer ε α)

namespace Program

variable {Op : Type} {Answer : Op → Type} {ε α β σ : Type}

/-- Run a second program on the value of a first one. -/
def bind : Program Op Answer ε α → (α → Program Op Answer ε β) → Program Op Answer ε β
  | done (.ok a), f => f a
  | done (.error e), _ => done (.error e)
  | call op next, f => call op fun x => (next x).bind f

instance : Monad (Program Op Answer ε) where
  pure a := done (.ok a)
  bind := bind

instance : MonadLift (Except ε) (Program Op Answer ε) := ⟨done⟩

/-- A single call. -/
def request (op : Op) : Program Op Answer ε (Answer op) := call op fun x => done (.ok x)

@[simp] theorem done_ok_bind (a : α) (f : α → Program Op Answer ε β) :
    (done (.ok a) >>= f) = f a := rfl

@[simp] theorem liftM_ok_bind (a : α) (f : α → Program Op Answer ε β) :
    ((liftM (.ok a : Except ε α) : Program Op Answer ε α) >>= f) = f a := rfl

/-! ### Execution -/

/-- Execute a program: the handler answers each call and changes the state, or
fails. -/
def exec (handle : σ → (op : Op) → Except ε (Answer op) × σ) :
    Program Op Answer ε α → σ → Except ε α × σ
  | done result, s => (result, s)
  | call op next, s =>
    match handle s op with
    | (.ok x, s') => exec handle (next x) s'
    | (.error e, s') => (.error e, s')

/-- The operations a program calls when it is executed. -/
def calls (handle : σ → (op : Op) → Except ε (Answer op) × σ) :
    Program Op Answer ε α → σ → List Op
  | done _, _ => []
  | call op next, s =>
    op :: match handle s op with
      | (.ok x, s') => calls handle (next x) s'
      | (.error _, _) => []

section Exec

variable {handle : σ → (op : Op) → Except ε (Answer op) × σ} {s s' : σ}

theorem exec_call_ok {op : Op} {next : Answer op → Program Op Answer ε α} {x : Answer op}
    (h : handle s op = (.ok x, s')) :
    exec handle (call op next) s = exec handle (next x) s' := by
  rw [exec, h]

theorem exec_call_error {op : Op} {next : Answer op → Program Op Answer ε α} {e : ε}
    (h : handle s op = (.error e, s')) : exec handle (call op next) s = (.error e, s') := by
  rw [exec, h]

theorem exec_bind (p : Program Op Answer ε α) (f : α → Program Op Answer ε β) (s : σ) :
    exec handle (p >>= f) s = match exec handle p s with
      | (.ok a, s') => exec handle (f a) s'
      | (.error e, s') => (.error e, s') := by
  induction p generalizing s with
  | done result => cases result <;> rfl
  | call op next ih =>
    change exec handle (call op fun x => (next x).bind f) s = _
    rw [exec, exec]
    rcases handle s op with ⟨_ | x, s'⟩
    · rfl
    · exact ih x s'

theorem exec_bind_ok {p : Program Op Answer ε α} {a : α}
    (h : exec handle p s = (.ok a, s')) (f : α → Program Op Answer ε β) :
    exec handle (p >>= f) s = exec handle (f a) s' := by
  rw [exec_bind, h]

theorem calls_call_ok {op : Op} {next : Answer op → Program Op Answer ε α} {x : Answer op}
    (h : handle s op = (.ok x, s')) :
    calls handle (call op next) s = op :: calls handle (next x) s' := by
  rw [calls, h]

theorem calls_call_error {op : Op} {next : Answer op → Program Op Answer ε α} {e : ε}
    (h : handle s op = (.error e, s')) : calls handle (call op next) s = [op] := by
  rw [calls, h]

/-- The parts of a sequence that returned. -/
theorem exec_bind_eq_ok {p : Program Op Answer ε α} {f : α → Program Op Answer ε β} {b : β}
    {s'' : σ} (h : exec handle (p >>= f) s = (.ok b, s'')) :
    ∃ a s', exec handle p s = (.ok a, s') ∧ exec handle (f a) s' = (.ok b, s'') := by
  rw [exec_bind] at h
  rcases hp : exec handle p s with ⟨_ | a, s'⟩
  · rw [hp] at h
    cases h
  · rw [hp] at h
    exact ⟨a, s', rfl, h⟩

end Exec

/-- Execute a program whose calls are answered by an oracle. -/
def eval (oracle : (op : Op) → Except ε (Answer op)) : Program Op Answer ε α → Except ε α
  | done result => result
  | call op next =>
    match oracle op with
    | .ok x => eval oracle (next x)
    | .error e => .error e

section Eval

variable {oracle : (op : Op) → Except ε (Answer op)}

theorem eval_call_ok {op : Op} {next : Answer op → Program Op Answer ε α} {x : Answer op}
    (h : oracle op = .ok x) : eval oracle (call op next) = eval oracle (next x) := by
  rw [eval, h]

theorem eval_bind (p : Program Op Answer ε α) (f : α → Program Op Answer ε β) :
    eval oracle (p >>= f) = eval oracle p >>= fun a => eval oracle (f a) := by
  induction p with
  | done result => cases result <;> rfl
  | call op next ih =>
    change eval oracle (call op fun x => (next x).bind f) = _
    rw [eval, eval]
    cases oracle op with
    | error e => rfl
    | ok x => exact ih x

end Eval

/-! ### Pre- and postconditions -/

section Wp

variable (answers : σ → (op : Op) → Answer op → σ → Prop) (guard : σ → Op → Prop)

/-- Whatever answers the calls get, the guard holds at each of them and the
postcondition at the end. The state is what the program's caller remembers of the
calls; `answers` says which answers are possible and what is remembered after
them. -/
def Wp : Program Op Answer ε α → (Except ε α → σ → Prop) → σ → Prop
  | done result, Q, s => Q result s
  | call op next, Q, s => guard s op ∧ ∀ x s', answers s op x s' → Wp (next x) Q s'

variable {answers guard} {s s' : σ}

@[simp] theorem wp_done {result : Except ε α} {Q : Except ε α → σ → Prop} :
    Wp answers guard (done result) Q s ↔ Q result s := Iff.rfl

theorem Wp.mono {p : Program Op Answer ε α} {Q Q' : Except ε α → σ → Prop}
    (h : Wp answers guard p Q s) (himp : ∀ r s, Q r s → Q' r s) :
    Wp answers guard p Q' s := by
  induction p generalizing s with
  | done result => exact himp _ _ h
  | call op next ih => exact ⟨h.1, fun x s' hx => ih x (h.2 x s' hx)⟩

theorem wp_bind {p : Program Op Answer ε α} {f : α → Program Op Answer ε β}
    {Q : Except ε β → σ → Prop} :
    Wp answers guard (p >>= f) Q s ↔
      Wp answers guard p (fun r s => match r with
        | .ok a => Wp answers guard (f a) Q s
        | .error e => Q (.error e) s) s := by
  induction p generalizing s with
  | done result => cases result <;> rfl
  | call op next ih =>
    exact and_congr_right fun _ => forall_congr' fun x => forall_congr' fun s' =>
      imp_congr_right fun _ => ih x

/-- A step that makes no call. -/
theorem wp_liftM_bind {r : Except ε α} {f : α → Program Op Answer ε β}
    {Q : Except ε β → σ → Prop} (herror : ∀ e, r = .error e → Q (.error e) s)
    (hok : ∀ a, r = .ok a → Wp answers guard (f a) Q s) :
    Wp answers guard ((liftM r : Program Op Answer ε α) >>= f) Q s := by
  cases r with
  | error e => exact herror e rfl
  | ok a => exact hok a rfl

/-- The guard holds at the call a program has come to. -/
theorem Wp.at_call {op : Op} {next : Answer op → Program Op Answer ε α}
    {Q : Except ε α → σ → Prop} (h : Wp answers guard (call op next) Q s) : guard s op :=
  h.1

/-- A program stays right when its call is answered. -/
theorem Wp.after_call {op : Op} {next : Answer op → Program Op Answer ε α}
    {Q : Except ε α → σ → Prop} {x : Answer op} (h : Wp answers guard (call op next) Q s)
    (hx : answers s op x s') : Wp answers guard (next x) Q s' :=
  h.2 x s' hx

end Wp

/-! ### The weight of the calls -/

section Within

/-- Whatever answers the calls get, their weights add up to at most `n`. -/
def Within (weight : Op → ℕ) : Program Op Answer ε α → ℕ → Prop
  | done _, _ => True
  | call op next, n => weight op ≤ n ∧ ∀ x, Within weight (next x) (n - weight op)

variable {weight : Op → ℕ} {n m : ℕ}

theorem Within.mono {p : Program Op Answer ε α} (h : p.Within weight n) (hle : n ≤ m) :
    p.Within weight m := by
  induction p generalizing n m with
  | done result => trivial
  | call op next ih =>
    exact ⟨Nat.le_trans h.1 hle, fun x => ih x (h.2 x) (Nat.sub_le_sub_right hle _)⟩

theorem Within.bind {p : Program Op Answer ε α} {f : α → Program Op Answer ε β}
    (h : p.Within weight n) (hf : ∀ a, (f a).Within weight m) :
    (p >>= f).Within weight (n + m) := by
  induction p generalizing n with
  | done result =>
    cases result with
    | error e => trivial
    | ok a => exact (hf a).mono (Nat.le_add_left m n)
  | call op next ih =>
    refine ⟨Nat.le_trans h.1 (Nat.le_add_right n m), fun x => ?_⟩
    have hrest := ih x (h.2 x)
    rwa [← Nat.sub_add_comm h.1] at hrest

/-- A step that makes no call. -/
theorem within_liftM_bind {r : Except ε α} {f : α → Program Op Answer ε β}
    (hf : ∀ a, (f a).Within weight n) :
    ((liftM r : Program Op Answer ε α) >>= f).Within weight n := by
  cases r with
  | error e => trivial
  | ok a => exact hf a

end Within

end Program

end RocketFS
