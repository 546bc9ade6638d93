import Mathlib.Computability.Language
import Mathlib.Order.CompletePartialOrder
import Mathlib.Tactic.Common

/-!
# The words that a machine reads

A relation `move q a q'` is a machine: in the state `q` it reads the letter `a` and
is in the state `q'` then. `paths move q q'` is the language of the words that take it
from `q` to `q'`, and the operations on languages say how such words are put together:
one letter after another, one word after another, and a word that leads from a state to
itself again and again.
-/

namespace Words

open Computability

variable {α σ : Type*}

/-! ### Letters -/

/-- The words of one letter that has a property. -/
def letters (p : α → Prop) : Language α := {w | ∃ a, p a ∧ w = [a]}

/-- The word of one letter. -/
abbrev letter (a : α) : Language α := letters (· = a)

variable {p p' : α → Prop} {a : α} {w : List α} {K L : Language α}

theorem mem_letters : w ∈ letters p ↔ ∃ a, p a ∧ w = [a] := Iff.rfl

@[simp] theorem singleton_mem_letters : [a] ∈ letters p ↔ p a := by
  simp [mem_letters]

theorem mem_letters_mul : w ∈ letters p * L ↔ ∃ a v, p a ∧ v ∈ L ∧ w = a :: v := by
  constructor
  · rw [Language.mem_mul]
    rintro ⟨u, ⟨a, ha, rfl⟩, v, hv, rfl⟩
    exact ⟨a, v, ha, hv, rfl⟩
  · rintro ⟨a, v, ha, hv, rfl⟩
    exact Language.append_mem_mul (singleton_mem_letters.mpr ha) hv

theorem cons_mem_letters_mul : a :: w ∈ letters p * L ↔ p a ∧ w ∈ L := by
  rw [mem_letters_mul]
  constructor
  · rintro ⟨a', v, ha, hv, heq⟩
    obtain ⟨rfl, rfl⟩ := List.cons.inj heq
    exact ⟨ha, hv⟩
  · rintro ⟨ha, hw⟩
    exact ⟨a, w, ha, hw, rfl⟩

theorem letters_mono (h : ∀ a, p a → p' a) : letters p ≤ letters p' := by
  rintro w ⟨a, ha, rfl⟩
  exact ⟨a, h a ha, rfl⟩

theorem letter_le (h : p a) : letter a ≤ letters p :=
  letters_mono fun _ ha => ha ▸ h

/-! ### Words from state to state -/

variable {move : σ → α → σ → Prop} {q q' q'' : σ} {u v : List α}

/-- The word `w` takes the machine from one state to another. -/
inductive Path (move : σ → α → σ → Prop) : σ → List α → σ → Prop
  | nil (q : σ) : Path move q [] q
  | cons {q q' q'' : σ} {a : α} {w : List α} (hmove : move q a q') (h : Path move q' w q'') :
      Path move q (a :: w) q''

theorem Path.append (hu : Path move q u q') (hv : Path move q' v q'') :
    Path move q (u ++ v) q'' := by
  induction hu with
  | nil q => exact hv
  | cons hmove h ih => exact .cons hmove (ih hv)

/-- The words that take the machine from `q` to `q'`. -/
def paths (move : σ → α → σ → Prop) (q q' : σ) : Language α := {w | Path move q w q'}

theorem one_le_paths : 1 ≤ paths move q q := by
  rintro w rfl
  exact .nil q

theorem letters_le_paths (h : ∀ a, p a → move q a q') : letters p ≤ paths move q q' := by
  rintro w ⟨a, ha, rfl⟩
  exact .cons (h a ha) (.nil q')

/-- **Words are put together** at the state where the one ends and the other begins. -/
theorem mul_le_paths (hK : K ≤ paths move q q') (hL : L ≤ paths move q' q'') :
    K * L ≤ paths move q q'' := by
  intro w hw
  obtain ⟨u, hu, v, hv, rfl⟩ := Language.mem_mul.mp hw
  exact (hK hu).append (hL hv)

/-- A word that leads back to where it began may be repeated. -/
theorem kstar_le_paths (hL : L ≤ paths move q q) : L∗ ≤ paths move q q := by
  refine kstar_le_of_mul_le_left one_le_paths ?_
  exact mul_le_paths le_rfl hL

end Words
