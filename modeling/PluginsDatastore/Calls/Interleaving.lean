import PluginsDatastore.Calls.Pool
import PluginsDatastore.Calls.Trace

/-!
# Interleavings on a service with several outcomes

`Pool.fire` makes a call whose outcome is a function of the state. Where a call
has several outcomes, as when it may fail, a pool moves by a relation:
`Pool.Fires R P i Q` says that the next call of the program `i` may lead from `P`
to `Q`. An interleaving is a `Trace` of such steps, and its labels are the
schedule.

The rules proved about them:

* `RelyGuarantee.trace`: if what is known of each program survives what the calls
  of the others may do, then all of it holds in every state an interleaving
  reaches;
* `exists_turns`: an interleaving, seen from one program, is the list of its turns,
  the calls it makes with the pools before and after each of them, and what the
  others do in between. `Turns.of_call` and `Turns.of_ret` read the turns off the
  tree of the program.
-/

namespace Calls

variable {I : Interface} {ι State α : Type}

namespace Pool

variable [DecidableEq ι]

/-- The next call of the program `i` may lead from the pool `P` to the pool `Q`,
when `R` says which outcomes a call may have. -/
inductive Fires (R : State → (c : I.Call) → I.Reply c → State → Prop) (P : Pool I ι State α)
    (i : ι) : Pool I ι State α → Prop
  | call {c : I.Call} {k : I.Reply c → Prog I α} {r : I.Reply c} {σ' : State}
      (hi : P.prog i = .call c k) (hr : R P.state c r σ') :
      Fires R P i ⟨σ', Function.update P.prog i (k r)⟩

variable {R : State → (c : I.Call) → I.Reply c → State → Prop} {P Q : Pool I ι State α}
  {i j : ι} {sched : List ι}

/-- One call, by what it did. -/
theorem Fires.inv (h : Fires R P i Q) :
    ∃ c k r, P.prog i = .call c k ∧ R P.state c r Q.state ∧ Q.prog i = k r ∧
      ∀ j, j ≠ i → Q.prog j = P.prog j := by
  cases h with
  | @call c k r σ' hi hr =>
    exact ⟨c, k, r, hi, hr, Function.update_self _ _ _, fun j hj => Function.update_of_ne hj _ _⟩

theorem Fires.prog_of_ne (h : Fires R P i Q) (hj : j ≠ i) : Q.prog j = P.prog j := by
  obtain ⟨_, _, _, -, -, -, hothers⟩ := h.inv
  exact hothers j hj

/-! ### Rely and guarantee -/

/-- What is known of interleaved programs: an invariant `Inv` of the state, what
the calls of each program may do to it (`G`), and what is known of each program
and the state together (`K`), which the calls of the others leave true. -/
structure RelyGuarantee (R : State → (c : I.Call) → I.Reply c → State → Prop)
    (Inv : State → Prop) (G : ι → State → State → Prop) (K : ι → State → Prog I α → Prop) :
    Prop where
  guarantee : ∀ i σ c k r σ', Inv σ → K i σ (.call c k) → R σ c r σ' → G i σ σ' ∧ K i σ' (k r)
  inv : ∀ i σ σ', Inv σ → G i σ σ' → Inv σ'
  stable : ∀ i j σ σ' p, j ≠ i → Inv σ → G i σ σ' → K j σ p → K j σ' p

variable {Inv : State → Prop} {G : ι → State → State → Prop} {K : ι → State → Prog I α → Prop}

theorem RelyGuarantee.fires (h : RelyGuarantee R Inv G K) (hfire : Fires R P i Q)
    (hInv : Inv P.state) (hK : ∀ j, K j P.state (P.prog j)) :
    Inv Q.state ∧ ∀ j, K j Q.state (Q.prog j) := by
  obtain ⟨c, k, r, hi, hr, hnext, hothers⟩ := hfire.inv
  obtain ⟨hG, hKi⟩ := h.guarantee i P.state c k r Q.state hInv (hi ▸ hK i) hr
  refine ⟨h.inv i _ _ hInv hG, fun j => ?_⟩
  by_cases hj : j = i
  · -- the program that moved
    subst hj
    rw [hnext]
    exact hKi
  · rw [hothers j hj]
    exact h.stable i j _ _ _ hj hInv hG (hK j)

/-- **The rule of rely and guarantee.** -/
theorem RelyGuarantee.trace (h : RelyGuarantee R Inv G K) (htrace : Trace (Fires R) P sched Q)
    (hInv : Inv P.state) (hK : ∀ j, K j P.state (P.prog j)) :
    Inv Q.state ∧ ∀ j, K j Q.state (Q.prog j) :=
  htrace.preserves (P := fun P => Inv P.state ∧ ∀ j, K j P.state (P.prog j))
    (fun _ _ _ hP hstep => h.fires hstep hP.1 hP.2) ⟨hInv, hK⟩

/-! ### One program among others -/

/-- The program `i` makes the call `c`, which is answered by `r`. -/
inductive Asks (R : State → (c : I.Call) → I.Reply c → State → Prop) (i : ι)
    (P : Pool I ι State α) (c : I.Call) (r : I.Reply c) : Pool I ι State α → Prop
  | call {k : I.Reply c → Prog I α} {σ' : State} (hi : P.prog i = .call c k)
      (hr : R P.state c r σ') : Asks R i P c r ⟨σ', Function.update P.prog i (k r)⟩

theorem Asks.fires {c : I.Call} {r : I.Reply c} (h : Asks R i P c r Q) : Fires R P i Q := by
  cases h with
  | call hi hr => exact .call hi hr

theorem Asks.inv {c : I.Call} {r : I.Reply c} (h : Asks R i P c r Q) :
    ∃ k, P.prog i = .call c k ∧ R P.state c r Q.state ∧ Q.prog i = k r := by
  cases h with
  | @call k σ' hi hr => exact ⟨k, hi, hr, Function.update_self _ _ _⟩

/-- A turn of a program: the pool before its call, the call and its reply, and the
pool after it. -/
structure Turn (I : Interface) (ι State α : Type) where
  before : Pool I ι State α
  call : I.Call
  reply : I.Reply call
  after : Pool I ι State α

/-- **An interleaving by the turns of the program `i`**: the others move up to each
of its turns and after the last one. -/
inductive Turns (R : State → (c : I.Call) → I.Reply c → State → Prop) (i : ι) :
    Pool I ι State α → List ι → List (Turn I ι State α) → Pool I ι State α → Prop
  | rest {P Q : Pool I ι State α} {sched : List ι} (h : Trace (Fires R) P sched Q)
      (hi : i ∉ sched) : Turns R i P sched [] Q
  | turn {P Q : Pool I ι State α} {sched sched' : List ι} {t : Turn I ι State α}
      {ts : List (Turn I ι State α)} (h : Trace (Fires R) P sched t.before) (hi : i ∉ sched)
      (hask : Asks R i t.before t.call t.reply t.after) (hrest : Turns R i t.after sched' ts Q) :
      Turns R i P (sched ++ i :: sched') (t :: ts) Q

/-- A step of another program comes before the first turn. -/
theorem Turns.cons_of_ne {P' : Pool I ι State α} {ts : List (Turn I ι State α)}
    (h : Turns R i P' sched ts Q) (hstep : Fires R P j P') (hj : j ≠ i) :
    Turns R i P (j :: sched) ts Q := by
  have hnotMem : ∀ {l : List ι}, i ∉ l → i ∉ j :: l := by
    intro l hl
    rw [List.mem_cons, not_or]
    exact ⟨hj.symm, hl⟩
  cases h with
  -- it joins the steps before the first turn, or before the end
  | rest htrace hi => exact .rest (.cons hstep htrace) (hnotMem hi)
  | turn htrace hi hask hrest => exact .turn (.cons hstep htrace) (hnotMem hi) hask hrest

/-- **Every interleaving** is one by the turns of any of its programs. -/
theorem exists_turns (h : Trace (Fires R) P sched Q) (i : ι) : ∃ ts, Turns R i P sched ts Q := by
  induction h with
  | nil P => exact ⟨[], .rest (.nil P) (by simp)⟩
  | @cons P P' Q j sched hstep _ ih =>
    obtain ⟨ts, hts⟩ := ih
    by_cases hj : j = i
    · -- its own step is a turn
      subst hj
      cases hstep with
      | @call c k r σ' hj hr =>
        exact ⟨⟨P, c, r, _⟩ :: ts, .turn (.nil P) List.not_mem_nil (.call hj hr) hts⟩
    · exact ⟨ts, hts.cons_of_ne hstep hj⟩

/-- The steps of the others leave a program where it is. -/
theorem prog_of_notMem (h : Trace (Fires R) P sched Q) (hj : j ∉ sched) :
    Q.prog j = P.prog j := by
  induction h with
  | nil P => rfl
  | cons hstep _ ih =>
    rw [List.mem_cons, not_or] at hj
    rw [ih hj.2, hstep.prog_of_ne hj.1]

/-- A program that has returned has no turns. -/
theorem Turns.of_ret {ts : List (Turn I ι State α)} {a b : α} (h : Turns R i P sched ts Q)
    (hi : P.prog i = .ret a) (hret : Q.prog i = .ret b) : ts = [] ∧ b = a := by
  cases h with
  | rest htrace hnotMem =>
    rw [prog_of_notMem htrace hnotMem, hi] at hret
    exact ⟨rfl, (Prog.ret.inj hret).symm⟩
  | turn htrace hnotMem hask _ =>
    obtain ⟨k, hcall, -, -⟩ := hask.inv
    rw [prog_of_notMem htrace hnotMem, hi] at hcall
    exact absurd hcall (by simp)

/-- **The next turn of a program** that has returned in the end is its next call, and
its further turns are those of what is left of it then. -/
theorem Turns.of_call {ts : List (Turn I ι State α)} {c : I.Call} {k : I.Reply c → Prog I α}
    {a : α} (h : Turns R i P sched ts Q) (hi : P.prog i = .call c k) (hret : Q.prog i = .ret a) :
    ∃ sched₁ M r M' ts' sched₂, ts = ⟨M, c, r, M'⟩ :: ts' ∧ Trace (Fires R) P sched₁ M ∧
      R M.state c r M'.state ∧ M'.prog i = k r ∧ Trace (Fires R) P (sched₁ ++ [i]) M' ∧
      Turns R i M' sched₂ ts' Q := by
  cases h with
  | rest htrace hnotMem =>
    -- without a turn it would not have returned
    rw [prog_of_notMem htrace hnotMem, hi] at hret
    exact absurd hret (by simp)
  | @turn _ _ sched₁ sched₂ t ts' htrace hnotMem hask hrest =>
    obtain ⟨M, c', r, M'⟩ := t
    obtain ⟨k', hcall, hr, hnext⟩ := hask.inv
    have hsame := hcall
    rw [prog_of_notMem htrace hnotMem, hi] at hsame
    cases hsame
    exact ⟨sched₁, M, r, M', ts', sched₂, rfl, htrace, hr, hnext,
      htrace.append (.cons hask.fires (.nil M')), hrest⟩

end Pool

end Calls
