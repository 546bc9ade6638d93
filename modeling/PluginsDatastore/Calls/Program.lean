import Mathlib.Logic.Function.Basic
import Mathlib.Tactic.Common

/-!
# Programs that call a shared service

A program of a client of some service is a tree: it has either returned, or it
is about to make one call and holds, for every possible reply, the program that
is left. The service is described by an `Interface`, the calls it takes and the
type of the reply to each, and it owns a state that only its calls touch.

Two readings of a program run alone are given:

* `Prog.eval`, for a service that answers by a function of its state. Every call
  has one outcome, so a program run alone has one result and one final state;
* `Prog.Runs`, for a service whose outcomes are a relation, as when a call may
  fail, and fail in several ways.

`Prog.runs_of_eval` connects the two: where the relation admits the function's
outcome of every call, it admits the evaluation of every program.

A program interleaved with others is the subject of `Calls/Pool.lean`.
-/

namespace Calls

/-- The calls a service takes, and the type of the reply to each. -/
structure Interface where
  Call : Type
  Reply : Call → Type

/-- A program over the interface `I` that returns an `α`: it has returned, or it
makes the call `c` and goes on with `k r` when the reply is `r`. -/
inductive Prog (I : Interface) (α : Type) : Type
  | ret (a : α) : Prog I α
  | call (c : I.Call) (k : I.Reply c → Prog I α) : Prog I α

variable {I : Interface} {α β State : Type}

namespace Prog

/-- Sequencing: `f` takes over where the program returns. -/
def bind : Prog I α → (α → Prog I β) → Prog I β
  | ret a, f => f a
  | call c k, f => call c (fun r => (k r).bind f)

instance : Monad (Prog I) where
  pure := ret
  bind := bind

/-- The program that makes one call and returns its reply. -/
def perform (c : I.Call) : Prog I (I.Reply c) := call c ret

@[simp] theorem pure_eq_ret (a : α) : (pure a : Prog I α) = ret a := rfl

@[simp] theorem ret_bind (a : α) (f : α → Prog I β) : (ret a >>= f) = f a := rfl

@[simp] theorem call_bind (c : I.Call) (k : I.Reply c → Prog I α) (f : α → Prog I β) :
    (call c k >>= f) = call c (fun r => k r >>= f) := rfl

@[simp] theorem perform_bind (c : I.Call) (f : I.Reply c → Prog I β) :
    (perform c >>= f) = call c f := rfl

/-- Programs that make the same call and go on alike are the same. -/
theorem call_congr {c : I.Call} {k k' : I.Reply c → Prog I α} (h : ∀ r, k r = k' r) :
    call c k = call c k' :=
  congrArg (call c) (funext h)

/-- Continuations that agree on every result are the same. -/
theorem bind_congr {p : Prog I α} {f g : α → Prog I β} (h : ∀ a, f a = g a) :
    (p >>= f) = (p >>= g) :=
  congrArg (p >>= ·) (funext h)

/-! ### A service that answers by a function -/

/-- The result and the final state of a program run alone from the state `σ`,
when the service answers the call `c` in the state `σ` by `E σ c`. -/
def eval (E : State → (c : I.Call) → I.Reply c × State) : Prog I α → State → α × State
  | ret a, σ => (a, σ)
  | call c k, σ => (k (E σ c).1).eval E (E σ c).2

variable (E : State → (c : I.Call) → I.Reply c × State)

@[simp] theorem eval_ret (a : α) (σ : State) : (ret a : Prog I α).eval E σ = (a, σ) := rfl

@[simp] theorem eval_call (c : I.Call) (k : I.Reply c → Prog I α) (σ : State) :
    (call c k).eval E σ = (k (E σ c).1).eval E (E σ c).2 := rfl

@[simp] theorem eval_bind (p : Prog I α) (f : α → Prog I β) (σ : State) :
    (p >>= f).eval E σ = (f (p.eval E σ).1).eval E (p.eval E σ).2 := by
  induction p generalizing σ with
  | ret a => rfl
  | call c k ih => exact ih (E σ c).1 (E σ c).2

/-! ### A service whose outcomes are a relation -/

/-- `p.Runs R σ a σ'`: run alone from `σ`, the program may return `a` and leave
the state `σ'`, when `R σ c r σ'` says that in the state `σ` the call `c` may be
answered by `r` and leave the state `σ'`. -/
inductive Runs (R : State → (c : I.Call) → I.Reply c → State → Prop) :
    Prog I α → State → α → State → Prop
  | ret (a : α) (σ : State) : Runs R (.ret a) σ a σ
  | call {c : I.Call} {k : I.Reply c → Prog I α} {σ σ₁ σ₂ : State} {r : I.Reply c} {a : α} :
      R σ c r σ₁ → Runs R (k r) σ₁ a σ₂ → Runs R (.call c k) σ a σ₂

variable {R : State → (c : I.Call) → I.Reply c → State → Prop}

@[simp] theorem runs_ret_iff {a b : α} {σ σ' : State} :
    (ret a : Prog I α).Runs R σ b σ' ↔ b = a ∧ σ' = σ := by
  refine ⟨?_, ?_⟩
  · intro h
    cases h
    exact ⟨rfl, rfl⟩
  · intro h
    obtain ⟨rfl, rfl⟩ := h
    exact .ret _ _

theorem runs_call_iff {c : I.Call} {k : I.Reply c → Prog I α} {a : α} {σ σ' : State} :
    (call c k).Runs R σ a σ' ↔ ∃ r σ₁, R σ c r σ₁ ∧ (k r).Runs R σ₁ a σ' := by
  refine ⟨?_, ?_⟩
  · -- only the rule `call` ends in a program that makes a call
    intro h
    cases h
    exact ⟨_, _, ‹_›, ‹_›⟩
  · intro h
    obtain ⟨r, σ₁, hr, hk⟩ := h
    exact .call hr hk

theorem runs_bind_iff {p : Prog I α} {f : α → Prog I β} {b : β} {σ σ' : State} :
    (p >>= f).Runs R σ b σ' ↔ ∃ a σ₁, p.Runs R σ a σ₁ ∧ (f a).Runs R σ₁ b σ' := by
  induction p generalizing σ with
  | ret a => simp
  | call c k ih =>
    simp only [call_bind, runs_call_iff, ih]
    -- both sides make the call `c` first, and differ in where the result is named
    refine ⟨?_, ?_⟩
    · intro h
      obtain ⟨r, σ₁, hr, a, σ₂, hk, hf⟩ := h
      exact ⟨a, σ₂, ⟨r, σ₁, hr, hk⟩, hf⟩
    · intro h
      obtain ⟨a, σ₂, ⟨r, σ₁, hr, hk⟩, hf⟩ := h
      exact ⟨r, σ₁, hr, a, σ₂, hk, hf⟩

/-- A program has the more runs, the more outcomes its calls have. -/
theorem Runs.mono {R' : State → (c : I.Call) → I.Reply c → State → Prop} {p : Prog I α}
    {a : α} {σ σ' : State} (h : p.Runs R σ a σ')
    (hR : ∀ σ c r σ', R σ c r σ' → R' σ c r σ') : p.Runs R' σ a σ' := by
  induction h with
  | ret a σ => exact .ret a σ
  | call hcall _ ih => exact .call (hR _ _ _ _ hcall) ih

variable {E}

/-- **Evaluation is one of the runs.** Where `R` admits the outcome `E` gives to
every call, it admits the evaluation of every program. -/
theorem runs_of_eval (hE : ∀ σ c, R σ c (E σ c).1 (E σ c).2) (p : Prog I α) (σ : State) :
    p.Runs R σ (p.eval E σ).1 (p.eval E σ).2 := by
  -- along the tree, from whatever state the calls before have left
  induction p generalizing σ with
  | ret a => exact .ret a σ
  | call c k ih => exact .call (hE σ c) (ih _ _)

end Prog

end Calls
