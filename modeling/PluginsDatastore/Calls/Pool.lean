import Mathlib.Algebra.BigOperators.Group.Finset.Basic
import Mathlib.Algebra.Group.Basic
import Mathlib.Data.Fintype.Card
import Mathlib.Tactic.Abel
import PluginsDatastore.Calls.Program

/-!
# Interleaved programs

A `Pool` is a service state together with programs that run against it, one for
every index. A step fires one program: it makes the call it is about to make and
waits at its next one. A schedule is a list of indices, so "any interleaving" is
a quantifier over lists, and every state an interleaving passes through is the
state after a shorter schedule.

Two rules about schedules are proved:

* `Pool.run_induction`, the invariant rule: a property of pools that every
  firing keeps holds after every schedule;
* `Pool.independent_run`, for programs that do not disturb each other. Where
  every program reads and writes its own part of the state only, each one
  returns what it returns when run alone from the start, and an additive reading
  of the state changes by the sum of what the programs change alone
  (`Independent`). Schedules in which all programs return then cannot be told
  apart (`Pool.independent_finished`), and the serial executions are among them
  (`Pool.exists_run_eq_serial`).
-/

namespace Calls

/-- A service state and, for every index, a program running against it. -/
structure Pool (I : Interface) (ι State α : Type) where
  state : State
  prog : ι → Prog I α

namespace Pool

variable {I : Interface} {ι State α : Type} [DecidableEq ι]
variable (E : State → (c : I.Call) → I.Reply c × State)

/-- The pool after the program `i` has made the call `c` and got the reply that
`k` waits for. -/
def step (P : Pool I ι State α) (i : ι) (c : I.Call) (k : I.Reply c → Prog I α) :
    Pool I ι State α :=
  ⟨(E P.state c).2, Function.update P.prog i (k (E P.state c).1)⟩

/-- The pool after the program `i` has made its next call. A program that has
returned makes none. -/
def fire (P : Pool I ι State α) (i : ι) : Pool I ι State α :=
  match P.prog i with
  | .ret _ => P
  | .call c k => P.step E i c k

/-- The pool after a schedule. -/
def run (P : Pool I ι State α) (sched : List ι) : Pool I ι State α := sched.foldl (fire E) P

/-- Every program has returned. -/
def Finished (P : Pool I ι State α) : Prop := ∀ i, ∃ a, P.prog i = .ret a

variable {E} {P : Pool I ι State α} {i j : ι}

@[simp] theorem step_state {c : I.Call} {k : I.Reply c → Prog I α} :
    (P.step E i c k).state = (E P.state c).2 := rfl

@[simp] theorem step_prog_self {c : I.Call} {k : I.Reply c → Prog I α} :
    (P.step E i c k).prog i = k (E P.state c).1 :=
  Function.update_self _ _ _

theorem step_prog_of_ne {c : I.Call} {k : I.Reply c → Prog I α} (h : j ≠ i) :
    (P.step E i c k).prog j = P.prog j :=
  Function.update_of_ne h _ _

theorem fire_ret {a : α} (h : P.prog i = .ret a) : P.fire E i = P := by
  rw [fire, h]

theorem fire_call {c : I.Call} {k : I.Reply c → Prog I α} (h : P.prog i = .call c k) :
    P.fire E i = P.step E i c k := by
  rw [fire, h]

@[simp] theorem run_nil : P.run E [] = P := rfl

@[simp] theorem run_cons (sched : List ι) : P.run E (i :: sched) = (P.fire E i).run E sched := rfl

theorem run_append (sched sched' : List ι) :
    P.run E (sched ++ sched') = (P.run E sched).run E sched' :=
  List.foldl_append

theorem fire_prog_of_ne (h : j ≠ i) : (P.fire E i).prog j = P.prog j := by
  cases hi : P.prog i with
  | ret a => rw [fire_ret hi]
  | call c k => rw [fire_call hi, step_prog_of_ne h]

/-- A schedule that does not name a program leaves it where it is. -/
theorem run_prog_of_notMem {sched : List ι} (h : j ∉ sched) :
    (P.run E sched).prog j = P.prog j := by
  induction sched generalizing P with
  | nil => rfl
  | cons i sched ih =>
    rw [List.mem_cons, not_or] at h
    -- neither the first firing nor the others are of `j`
    rw [run_cons, ih h.2, fire_prog_of_ne h.1]

/-- A program that has returned stays so. -/
theorem run_prog_ret {a : α} (h : P.prog i = .ret a) (sched : List ι) :
    (P.run E sched).prog i = .ret a := by
  induction sched generalizing P with
  | nil => exact h
  | cons j sched ih =>
    refine ih ?_
    by_cases hij : i = j
    · -- firing it makes no call
      subst hij
      rw [fire_ret h, h]
    · rw [fire_prog_of_ne hij, h]

/-- **The invariant rule.** A property that every call of every program keeps
holds after every schedule. -/
theorem run_induction {C : Pool I ι State α → Prop} (h₀ : C P)
    (hfire : ∀ (Q : Pool I ι State α) (i : ι) (c : I.Call) (k : I.Reply c → Prog I α), C Q →
      Q.prog i = .call c k → C (Q.step E i c k))
    (sched : List ι) : C (P.run E sched) := by
  induction sched generalizing P with
  | nil => exact h₀
  | cons i sched ih =>
    refine ih ?_
    cases hi : P.prog i with
    | ret a =>
      -- nothing is left to fire
      rw [fire_ret hi]
      exact h₀
    | call c k =>
      rw [fire_call hi]
      exact hfire P i c k h₀ hi

/-! ### Serial executions -/

/-- The pool after the program `i` has run to its end. -/
def finish (E : State → (c : I.Call) → I.Reply c × State) (P : Pool I ι State α) (i : ι) :
    Pool I ι State α :=
  ⟨((P.prog i).eval E P.state).2,
    Function.update P.prog i (.ret ((P.prog i).eval E P.state).1)⟩

/-- The pool after the programs of a list have run one after another, each to
its end. -/
def serial (E : State → (c : I.Call) → I.Reply c × State) (P : Pool I ι State α)
    (order : List ι) : Pool I ι State α :=
  order.foldl (finish E) P

/-- Running a program to its end is a schedule that names it only. -/
theorem exists_run_eq_finish (P : Pool I ι State α) (i : ι) :
    ∃ sched, P.run E sched = P.finish E i := by
  -- induction on the tree that is left of the program, for every pool it is in
  obtain ⟨p, hp⟩ : ∃ p, P.prog i = p := ⟨_, rfl⟩
  induction p generalizing P with
  | ret a =>
    refine ⟨[], ?_⟩
    rw [run_nil, finish, hp, Prog.eval_ret, ← hp, Function.update_eq_self]
  | call c k ih =>
    have hnext : (P.fire E i).prog i = k (E P.state c).1 := by
      rw [fire_call hp, step_prog_self]
    obtain ⟨sched, hsched⟩ := ih (E P.state c).1 (P.fire E i) hnext
    -- fire the call, and then what finishes the program that is left
    refine ⟨i :: sched, ?_⟩
    rw [run_cons, hsched, finish, finish, hnext, hp, Prog.eval_call, fire_call hp, step_state, step,
      Function.update_idem]

/-- **A serial execution is an interleaving.** -/
theorem exists_run_eq_serial (P : Pool I ι State α) (order : List ι) :
    ∃ sched, P.run E sched = P.serial E order := by
  induction order generalizing P with
  | nil => exact ⟨[], rfl⟩
  | cons i order ih =>
    obtain ⟨sched₁, h₁⟩ := exists_run_eq_finish (E := E) P i
    obtain ⟨sched₂, h₂⟩ := ih (P.finish E i)
    exact ⟨sched₁ ++ sched₂, by rw [run_append, h₁, h₂]; rfl⟩

theorem serial_append (order order' : List ι) :
    P.serial E (order ++ order') = (P.serial E order).serial E order' :=
  List.foldl_append

@[simp] theorem serial_cons (order : List ι) :
    P.serial E (i :: order) = (P.finish E i).serial E order := rfl

theorem finish_prog_of_ne (h : j ≠ i) : (P.finish E i).prog j = P.prog j :=
  Function.update_of_ne h _ _

/-- A serial execution that does not name a program leaves it where it is. -/
theorem serial_prog_of_notMem {order : List ι} (h : j ∉ order) :
    (P.serial E order).prog j = P.prog j := by
  induction order generalizing P with
  | nil => rfl
  | cons i order ih =>
    rw [List.mem_cons, not_or] at h
    rw [serial_cons, ih h.2, finish_prog_of_ne h.1]

theorem serial_prog_ret {a : α} (h : P.prog i = .ret a) (order : List ι) :
    (P.serial E order).prog i = .ret a := by
  obtain ⟨sched, hsched⟩ := exists_run_eq_serial (E := E) P order
  rw [← hsched, run_prog_ret h]

/-- A serial execution that names every program finishes. -/
theorem serial_finished {order : List ι} (h : ∀ i, i ∈ order) : (P.serial E order).Finished := by
  intro i
  -- the program returns at its turn and is not touched after it
  obtain ⟨before, after, rfl⟩ := List.append_of_mem (h i)
  rw [serial_append, serial_cons]
  exact ⟨_, serial_prog_ret (Function.update_self _ _ _) after⟩

/-! ### Programs that do not disturb each other -/

/-- **Independence from the state `σ₀`.** `Sees i σ` says that the part of `σ`
that the program `i` touches is as it was in `σ₀`, `G` is an invariant of the
states, `Q i` holds of what may be left of the program `i` before it writes, and
`μ` reads a state as an element of a monoid. At each call

* the program either reads: it gets the reply it would get in `σ₀`;
* or writes: it then returns at once, what it writes is invisible to the other
  programs, and it changes `μ` by the amount it would change `μ σ₀`. -/
structure Independent {M : Type} [AddCancelCommMonoid M]
    (E : State → (c : I.Call) → I.Reply c × State) (σ₀ : State) (G : State → Prop)
    (Sees : ι → State → Prop) (μ : State → M) (Q : ι → Prog I α → Prop) : Prop where
  call : ∀ i c k, Q i (.call c k) →
    (((E σ₀ c).2 = σ₀ ∧ Q i (k (E σ₀ c).1)) ∧
      ∀ σ, G σ → Sees i σ → (E σ c).2 = σ ∧ (E σ c).1 = (E σ₀ c).1) ∨
    ∃ a, k (E σ₀ c).1 = .ret a ∧ ∀ σ, G σ → Sees i σ → k (E σ c).1 = .ret a ∧ G (E σ c).2 ∧
      (∀ j, j ≠ i → Sees j σ → Sees j (E σ c).2) ∧
      μ (E σ c).2 + μ σ₀ = μ σ + μ (E σ₀ c).2

section Independent

variable {M : Type} [AddCancelCommMonoid M] {σ₀ : State} {G : State → Prop}
  {Sees : ι → State → Prop} {μ : State → M} {Q : ι → Prog I α → Prop}

/-- What holds of an independent pool in the middle of a schedule: the programs
in `D` have written and returned, the others have only read, and `μ` has changed
by what the programs in `D` change alone. -/
structure Between (E : State → (c : I.Call) → I.Reply c × State) (σ₀ : State)
    (G : State → Prop) (Sees : ι → State → Prop) (μ : State → M) (Q : ι → Prog I α → Prop)
    (start : ι → Prog I α) (D : Finset ι) (P : Pool I ι State α) : Prop where
  inv : G P.state
  sees : ∀ i ∉ D, Sees i P.state
  left : ∀ i ∉ D, Q i (P.prog i)
  alone : ∀ i ∉ D, (P.prog i).eval E σ₀ = (start i).eval E σ₀
  returned : ∀ i ∈ D, P.prog i = .ret ((start i).eval E σ₀).1
  amount : μ P.state + D.card • μ σ₀ = μ σ₀ + ∑ i ∈ D, μ ((start i).eval E σ₀).2

theorem Between.fire_call {start : ι → Prog I α} {D : Finset ι}
    (hind : Independent E σ₀ G Sees μ Q) (h : Between E σ₀ G Sees μ Q start D P)
    {c : I.Call} {k : I.Reply c → Prog I α} (hi : P.prog i = .call c k) :
    ∃ D', Between E σ₀ G Sees μ Q start D' (P.step E i c k) := by
  -- a program that has written has returned, and makes no call
  have hiD : i ∉ D := fun hmem => by
    have hret := h.returned i hmem
    rw [hi] at hret
    exact absurd hret (by simp)
  have hQ : Q i (.call c k) := hi ▸ h.left i hiD
  have halone : (k (E σ₀ c).1).eval E (E σ₀ c).2 = (start i).eval E σ₀ := by
    rw [← h.alone i hiD, hi, Prog.eval_call]
  rcases hind.call i c k hQ with ⟨⟨hread₀, hnext⟩, hread⟩ | ⟨a, ha₀, hwrite⟩
  · -- a read: nothing changes but the program that read
    obtain ⟨hstate, hreply⟩ := hread P.state h.inv (h.sees i hiD)
    rw [hread₀] at halone
    refine ⟨D, ?_, ?_, ?_, ?_, ?_, ?_⟩
    · rw [step_state, hstate]; exact h.inv
    · rw [step_state, hstate]; exact h.sees
    · -- the reply is the one of `σ₀`, so what is left is what would be left there
      intro j hj
      by_cases hji : j = i
      · subst hji
        rw [step_prog_self, hreply]
        exact hnext
      · rw [step_prog_of_ne hji]
        exact h.left j hj
    · -- nor does the result alone from `σ₀` change
      intro j hj
      by_cases hji : j = i
      · subst hji
        rw [step_prog_self, hreply]
        exact halone
      · rw [step_prog_of_ne hji]
        exact h.alone j hj
    · intro j hj
      rw [step_prog_of_ne (fun hji : j = i => hiD (hji ▸ hj))]
      exact h.returned j hj
    · rw [step_state, hstate]; exact h.amount
  · -- a write: the program joins those that have written
    obtain ⟨ha, hG, hothers, hamount⟩ := hwrite P.state h.inv (h.sees i hiD)
    rw [ha₀, Prog.eval_ret] at halone
    have hne : ∀ {j}, j ∉ insert i D → j ≠ i ∧ j ∉ D := fun {j} hj =>
      not_or.mp (fun hor => hj (Finset.mem_insert.mpr hor))
    refine ⟨insert i D, hG, ?_, ?_, ?_, ?_, ?_⟩
    · -- the write is invisible to the programs that have not written
      intro j hj
      exact hothers j (hne hj).1 (h.sees j (hne hj).2)
    · -- and these are where they were
      intro j hj
      rw [step_prog_of_ne (hne hj).1]
      exact h.left j (hne hj).2
    · intro j hj
      rw [step_prog_of_ne (hne hj).1]
      exact h.alone j (hne hj).2
    · -- what `i` returns is what it returns alone
      intro j hj
      rcases Finset.mem_insert.mp hj with rfl | hj
      · rw [step_prog_self, ha, ← halone]
      · rw [step_prog_of_ne (fun hji : j = i => hiD (hji ▸ hj))]
        exact h.returned j hj
    · -- the amounts add up
      rw [step_state, Finset.card_insert_of_notMem hiD, Finset.sum_insert hiD, ← halone, succ_nsmul]
      calc μ (E P.state c).2 + (D.card • μ σ₀ + μ σ₀)
          = (μ (E P.state c).2 + μ σ₀) + D.card • μ σ₀ := by abel
        _ = (μ P.state + D.card • μ σ₀) + μ (E σ₀ c).2 := by rw [hamount]; abel
        _ = μ σ₀ + (μ (E σ₀ c).2 + ∑ j ∈ D, μ ((start j).eval E σ₀).2) := by
            rw [h.amount]; abel

/-- After any schedule of independent programs some of them have written and the
rest have only read. -/
theorem independent_run (hind : Independent E σ₀ G Sees μ Q) (hstate : P.state = σ₀)
    (hG : G σ₀) (hSees : ∀ i, Sees i σ₀) (hQ : ∀ i, Q i (P.prog i)) (sched : List ι) :
    ∃ D, Between E σ₀ G Sees μ Q P.prog D (P.run E sched) := by
  refine run_induction (C := fun R => ∃ D, Between E σ₀ G Sees μ Q P.prog D R) ?_ ?_ sched
  · -- at the start none has written
    refine ⟨∅, ?_, ?_, fun i _ => hQ i, fun i _ => rfl, fun i hi => absurd hi (by simp), ?_⟩
    · rw [hstate]; exact hG
    · rw [hstate]; exact fun i _ => hSees i
    · simp [hstate]
  · intro R i c k h hi
    obtain ⟨D, hD⟩ := h
    exact hD.fire_call hind hi

/-- **Independent programs, all returned.** Whatever the schedule was, every
program has returned what it returns alone from the start, and the state has
changed by the sum of what the programs change alone. -/
theorem independent_finished [Fintype ι] (hind : Independent E σ₀ G Sees μ Q)
    (hstate : P.state = σ₀) (hG : G σ₀) (hSees : ∀ i, Sees i σ₀) (hQ : ∀ i, Q i (P.prog i))
    {sched : List ι} (hfin : (P.run E sched).Finished) :
    (∀ i, (P.run E sched).prog i = .ret ((P.prog i).eval E σ₀).1) ∧
      μ (P.run E sched).state + Fintype.card ι • μ σ₀ =
        μ σ₀ + ∑ i, μ ((P.prog i).eval E σ₀).2 := by
  obtain ⟨D, hD⟩ := independent_run hind hstate hG hSees hQ sched
  -- a program that returned without writing changes nothing alone either
  have hquiet : ∀ i ∉ D, (P.run E sched).prog i = .ret ((P.prog i).eval E σ₀).1 ∧
      ((P.prog i).eval E σ₀).2 = σ₀ := by
    intro i hi
    obtain ⟨a, ha⟩ := hfin i
    have halone := hD.alone i hi
    rw [ha, Prog.eval_ret] at halone
    rw [ha, ← halone]
    exact ⟨rfl, rfl⟩
  refine ⟨fun i => ?_, ?_⟩
  · by_cases hi : i ∈ D
    · exact hD.returned i hi
    · exact (hquiet i hi).1
  · -- the programs that only read change the sum by nothing
    have hrest : ∑ i ∈ Dᶜ, μ ((P.prog i).eval E σ₀).2 = Dᶜ.card • μ σ₀ := by
      rw [Finset.sum_congr rfl fun i hi => by rw [(hquiet i (Finset.mem_compl.mp hi)).2],
        Finset.sum_const]
    calc μ (P.run E sched).state + Fintype.card ι • μ σ₀
        = (μ (P.run E sched).state + D.card • μ σ₀) + Dᶜ.card • μ σ₀ := by
          rw [← Finset.card_add_card_compl D, add_nsmul, add_assoc]
      _ = (μ σ₀ + ∑ i ∈ D, μ ((P.prog i).eval E σ₀).2) + Dᶜ.card • μ σ₀ := by rw [hD.amount]
      _ = μ σ₀ + ∑ i, μ ((P.prog i).eval E σ₀).2 := by
          rw [← Finset.sum_add_sum_compl D, hrest, add_assoc]

/-- **Finished schedules of independent programs agree**, on what the programs
return and on the reading of the final state. -/
theorem independent_agree [Fintype ι] (hind : Independent E σ₀ G Sees μ Q)
    (hstate : P.state = σ₀) (hG : G σ₀) (hSees : ∀ i, Sees i σ₀) (hQ : ∀ i, Q i (P.prog i))
    {sched sched' : List ι} (hfin : (P.run E sched).Finished)
    (hfin' : (P.run E sched').Finished) :
    (P.run E sched).prog = (P.run E sched').prog ∧
      μ (P.run E sched).state = μ (P.run E sched').state := by
  -- both are what the programs do alone, and cancelling is all that is left
  obtain ⟨hprog, hμ⟩ := independent_finished hind hstate hG hSees hQ hfin
  obtain ⟨hprog', hμ'⟩ := independent_finished hind hstate hG hSees hQ hfin'
  exact ⟨funext fun i => (hprog i).trans (hprog' i).symm, add_right_cancel (hμ.trans hμ'.symm)⟩

end Independent

end Pool

end Calls
