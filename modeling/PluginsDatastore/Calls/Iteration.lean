import Mathlib.Data.List.TakeDrop
import Mathlib.Tactic.Common

/-!
# What an iterator answers

An iterator is a state and a function `next` that gives an answer and the state
after it. `outcomes` are the answers of its first calls, and `Gives` says what all
of them are: those of a list, and then the same answer for ever, as an iterator
does that has come to its end or has failed.

`Gives.cons` and `gives_nil` build such a statement from one call at a time.
-/

namespace Calls

variable {ι κ α : Type}

/-- The answers to the first `n` calls. -/
def outcomes (next : ι → α × ι) : ℕ → ι → List α
  | 0, _ => []
  | n + 1, t => (next t).1 :: outcomes next n (next t).2

/-- The state after `n` calls. -/
def after (next : ι → α × ι) : ℕ → ι → ι
  | 0, t => t
  | n + 1, t => after next n (next t).2

/-- The calls from `t` on are answered by `l`, and then always by `last`. -/
def Gives (next : ι → α × ι) (t : ι) (l : List α) (last : α) : Prop :=
  ∀ n, outcomes next n t = l.takeD n last

variable {next : ι → α × ι} {t t' : ι} {s : κ} {x last : α} {l : List α}

theorem Gives.cons (hnext : next t = (x, t')) (h : Gives next t' l last) :
    Gives next t (x :: l) last := by
  intro n
  cases n with
  | zero => rfl
  | succ n =>
    rw [outcomes, hnext, h n]
    rfl

theorem Gives.same (hlast : (next t).1 = last) (h : Gives next (next t).2 [] last) :
    Gives next t [] last := by
  intro n
  cases n with
  | zero => rfl
  | succ n =>
    rw [outcomes, hlast, h n]
    rfl

/-- An answer that leaves a state with the same answer is the last one. -/
theorem gives_nil {P : ι → Prop} (hP : ∀ t, P t → (next t).1 = last ∧ P (next t).2) (h : P t) :
    Gives next t [] last := by
  intro n
  induction n generalizing t with
  | zero => rfl
  | succ n ih =>
    obtain ⟨hlast, hrest⟩ := hP t h
    rw [outcomes, hlast, ih hrest]
    rfl

theorem map_takeD {β : Type} (f : α → β) (n : ℕ) (l : List α) (last : α) :
    (l.takeD n last).map f = (l.map f).takeD n (f last) := by
  induction n generalizing l with
  | zero => rfl
  | succ n ih => cases l <;> simp [ih]

/-- Iterators that give the same, up to a function of the answers, are told apart by no
number of calls. -/
theorem Gives.outcomes_eq_map {β : Type} {next' : κ → β × κ} {l' : List β} {last' : β}
    {f : β → α} (h : Gives next t l last) (h' : Gives next' s l' last') (hl : l'.map f = l)
    (hlast : f last' = last) (n : ℕ) :
    outcomes next n t = (outcomes next' n s).map f := by
  rw [h n, h' n, map_takeD, hl, hlast]

end Calls
