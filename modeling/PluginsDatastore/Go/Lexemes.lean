import PluginsDatastore.Go.Scanner
import PluginsDatastore.Words.Json

/-!
# The lexemes of a JSON text

The scanner reads the numbers, strings and words of a text byte by byte, and answers
`scanBeginLiteral` to the first and `scanContinue` to the others. What a stack it has
does not matter to that, so that `paths keeps` is a machine on the steps alone.

At the end of a number the scanner does not know yet that it has ended. It is in one
of the steps that are `Ended` then, which take a byte that belongs to no number as the
step after a value does.
-/

namespace PluginsDatastore

open Words Computability

namespace Scanner

/-- The byte is part of a lexeme: it leads from step to step and leaves the stack. -/
def keeps (q : Step) (c : UInt8) (q' : Step) : Prop :=
  ∀ (s : Scanner) (ps : List ParseState), (s.goto q ps).next c = (.scanContinue, s.goto q' ps)

/-- The byte begins a lexeme. -/
def opens (c : UInt8) (q : Step) : Prop :=
  ∀ (s : Scanner) (ps : List ParseState),
    (s.goto .beginValue ps).next c = (.scanBeginLiteral, s.goto q ps)

/-- The steps in which a lexeme may have ended. -/
inductive Ended : Step → Prop
  | endValue : Ended .endValue
  | zero : Ended .zero
  | one : Ended .one
  | dot0 : Ended .dot0
  | e0 : Ended .e0

/-- The rests of lexemes: the words that lead from a step to the end of one. -/
def lexemes (q : Step) : Language UInt8 := {w | ∃ q', Ended q' ∧ w ∈ paths keeps q q'}

/-- Whole lexemes. -/
def literals : Language UInt8 := {w | ∃ c q l, w = c :: l ∧ opens c q ∧ l ∈ lexemes q}

variable {q q' : Step} {K L : Language UInt8} {p : UInt8 → Prop}

theorem one_le_lexemes (hq : Ended q) : 1 ≤ lexemes q := by
  intro w hw
  exact ⟨q, hq, one_le_paths hw⟩

/-- What leads from one step to another comes before a rest. -/
theorem mul_le_lexemes (hK : K ≤ paths keeps q q') (hL : L ≤ lexemes q') : K * L ≤ lexemes q := by
  rintro _ ⟨u, hu, v, hv, rfl⟩
  obtain ⟨q'', hq'', hv⟩ := hL hv
  exact ⟨q'', hq'', mul_le_paths hK (le_refl (paths keeps q' q'')) (Language.append_mem_mul hu hv)⟩

theorem le_lexemes (hK : K ≤ paths keeps q q') (hq' : Ended q') : K ≤ lexemes q := by
  simpa using mul_le_lexemes hK (one_le_lexemes hq')

/-- A byte that begins a lexeme and the rest of it. -/
theorem mul_le_literals (hp : ∀ c, p c → opens c q) (hL : L ≤ lexemes q) :
    letters p * L ≤ literals := by
  intro w hw
  obtain ⟨c, l, hc, hl, rfl⟩ := mem_letters_mul.mp hw
  exact ⟨c, q, l, rfl, hp c hc, hL hl⟩

/-! ### The beginning of a value -/

/-- The steps at which a value may begin. -/
def BeginsValue (q : Step) : Prop := q = .beginValue ∨ q = .beginValueOrEmpty

theorem opens_ne {c : UInt8} (h : opens c q) : ¬ isSpace c ∧ c ≠ endArray := by
  have hop := congrArg Prod.fst (h {} [])
  refine ⟨fun hc => ?_, ?_⟩
  · have hskip : (({} : Scanner).goto .beginValue []).next c =
        (.scanSkipSpace, ({} : Scanner).goto .beginValue []) := if_pos hc
    rw [hskip] at hop
    cases hop
  · rintro rfl
    have herror : (({} : Scanner).goto .beginValue []).next endArray =
        (({} : Scanner).goto .beginValue []).error endArray "looking for beginning of value" := rfl
    rw [herror] at hop
    cases hop

/-- After an opening bracket a value begins as it does anywhere. -/
theorem next_of_beginsValue {s : Scanner} {ps : List ParseState} {c : UInt8} (hq : BeginsValue q)
    (hspace : ¬ isSpace c) (hbracket : c ≠ endArray) :
    (s.goto q ps).next c = (s.goto .beginValue ps).next c := by
  rcases hq with rfl | rfl
  · rfl
  · change (if isSpace c then _ else if c = endArray then _ else _) =
      (s.goto .beginValue ps).stateBeginValue c
    rw [if_neg hspace, if_neg hbracket, stateBeginValue, stateBeginValue, if_neg hspace,
      if_neg hspace]
    rfl

theorem opens_of_beginsValue {c : UInt8} (h : opens c q') (hq : BeginsValue q) (s : Scanner)
    (ps : List ParseState) : (s.goto q ps).next c = (.scanBeginLiteral, s.goto q' ps) := by
  obtain ⟨hspace, hbracket⟩ := opens_ne h
  rw [next_of_beginsValue hq hspace hbracket, h]

/-! ### Numbers -/

/-- A step that goes on inside a lexeme. -/
theorem keeps_of_continueAt {c : UInt8} (hq : q ≠ .endTop) (hq' : q' ≠ .endTop)
    (h : ∀ (s : Scanner) (ps : List ParseState),
      (s.goto q ps).next c = (s.goto q ps).continueAt q') : keeps q c q' := by
  intro s ps
  rw [h]
  exact congrArg (Prod.mk _) (goto_with s hq hq')

theorem not_isDecimal_of_isExp {c : UInt8} (hc : isExp c) : ¬ isDecimal c ∧ c ≠ '.'.toUInt8 := by
  rcases hc with rfl | rfl
  · decide
  · decide

theorem not_isSign_of_isDecimal {c : UInt8} (hc : isDecimal c) : ¬ isSign c := by
  rintro (rfl | rfl)
  · exact absurd hc (by decide)
  · exact absurd hc (by decide)

theorem one_digit {c : UInt8} (hc : isDecimal c) : keeps .one c .one :=
  keeps_of_continueAt (by decide) (by decide) fun _ _ => if_pos hc

theorem dot_digit {c : UInt8} (hc : isDecimal c) : keeps .dot c .dot0 :=
  keeps_of_continueAt (by decide) (by decide) fun _ _ => if_pos hc

theorem dot0_digit {c : UInt8} (hc : isDecimal c) : keeps .dot0 c .dot0 := fun _ _ => if_pos hc

theorem e_sign {c : UInt8} (hc : isSign c) : keeps .e c .eSign :=
  keeps_of_continueAt (by decide) (by decide) fun _ _ => if_pos hc

theorem e_digit {c : UInt8} (hc : isDecimal c) : keeps .e c .e0 :=
  keeps_of_continueAt (by decide) (by decide) fun _ _ =>
    (if_neg (not_isSign_of_isDecimal hc)).trans (if_pos hc)

theorem eSign_digit {c : UInt8} (hc : isDecimal c) : keeps .eSign c .e0 :=
  keeps_of_continueAt (by decide) (by decide) fun _ _ => if_pos hc

theorem e0_digit {c : UInt8} (hc : isDecimal c) : keeps .e0 c .e0 := fun _ _ => if_pos hc

/-- The steps that may end a number before its exponent: an exponent may follow. -/
theorem keeps_exp (hq : q = .zero ∨ q = .one ∨ q = .dot0) {c : UInt8} (hc : isExp c) :
    keeps q c .e := by
  obtain ⟨hdigit, hdot⟩ := not_isDecimal_of_isExp hc
  rcases hq with rfl | rfl | rfl
  · exact keeps_of_continueAt (by decide) (by decide) fun _ _ =>
      (if_neg hdot).trans (if_pos hc)
  · exact keeps_of_continueAt (by decide) (by decide) fun _ _ =>
      (if_neg hdigit).trans ((if_neg hdot).trans (if_pos hc))
  · exact keeps_of_continueAt (by decide) (by decide) fun _ _ =>
      (if_neg hdigit).trans (if_pos hc)

theorem keeps_point (hq : q = .zero ∨ q = .one) : keeps q '.'.toUInt8 .dot := by
  rcases hq with rfl | rfl
  · exact keeps_of_continueAt (by decide) (by decide) fun _ _ => rfl
  · exact keeps_of_continueAt (by decide) (by decide) fun _ _ => rfl

/-- An exponent, or none. -/
theorem exp_le_lexemes (hq : q = .zero ∨ q = .one ∨ q = .dot0) : 1 + Json.exp ≤ lexemes q := by
  have hended : Ended q := by
    rcases hq with rfl | rfl | rfl
    · exact .zero
    · exact .one
    · exact .dot0
  have hdigits : Json.digit∗ ≤ lexemes .e0 :=
    le_lexemes (kstar_le_paths (letters_le_paths fun _ => e0_digit)) .e0
  refine sup_le (one_le_lexemes hended) ?_
  rw [Json.exp, mul_assoc, mul_assoc]
  refine mul_le_lexemes (letters_le_paths fun _ => keeps_exp hq) ?_
  rw [add_mul, one_mul]
  refine sup_le ?_ ?_
  · exact mul_le_lexemes (letters_le_paths fun _ => e_digit) hdigits
  · refine mul_le_lexemes (letters_le_paths fun _ => e_sign) ?_
    exact mul_le_lexemes (letters_le_paths fun _ => eSign_digit) hdigits

/-- What may follow the integer part of a number. -/
theorem frac_exp_le_lexemes (hq : q = .zero ∨ q = .one) :
    (1 + Json.frac) * (1 + Json.exp) ≤ lexemes q := by
  have hexp : 1 + Json.exp ≤ lexemes q := exp_le_lexemes (hq.imp_right .inl)
  rw [add_mul, one_mul]
  refine sup_le hexp ?_
  rw [Json.frac, mul_assoc, mul_assoc]
  have hpoint : letter 0x2E ≤ paths keeps q .dot := by
    refine letters_le_paths ?_
    rintro _ rfl
    exact keeps_point hq
  refine mul_le_lexemes hpoint ?_
  refine mul_le_lexemes (letters_le_paths fun _ => dot_digit) ?_
  exact mul_le_lexemes (kstar_le_paths (letters_le_paths fun _ => dot0_digit))
    (exp_le_lexemes (.inr (.inr rfl)))

/-- The digits after the first, and what may follow. -/
theorem digits_le_lexemes :
    Json.digit∗ * ((1 + Json.frac) * (1 + Json.exp)) ≤ lexemes .one :=
  mul_le_lexemes (kstar_le_paths (letters_le_paths fun _ => one_digit))
    (frac_exp_le_lexemes (.inr rfl))

theorem opens_digit19 {c : UInt8} (hc : isDigit19 c) : opens c .one := by
  have hne : ∀ b : UInt8, ¬ isDigit19 b → c ≠ b := fun b hb heq => hb (heq ▸ hc)
  have hspace : ¬ isSpace c := by
    rintro (rfl | rfl | rfl | rfl) <;> exact absurd hc (by decide)
  intro s ps
  change (s.goto .beginValue ps).stateBeginValue c = _
  rw [stateBeginValue_goto s (by decide), if_neg hspace, if_neg (hne _ (by decide)),
    if_neg (hne _ (by decide)), if_neg (hne _ (by decide)), if_neg (hne _ (by decide)),
    if_neg (hne _ (by decide)), if_neg (hne _ (by decide)), if_neg (hne _ (by decide)),
    if_neg (hne _ (by decide)), if_pos hc]

theorem neg_digit19 {c : UInt8} (hc : isDigit19 c) : keeps .neg c .one := by
  have hne : c ≠ '0'.toUInt8 := by
    rintro rfl
    exact absurd hc (by decide)
  exact keeps_of_continueAt (by decide) (by decide) fun _ _ => (if_neg hne).trans (if_pos hc)

/-- **A number is a lexeme.** -/
theorem number_le_literals : Json.number ≤ literals := by
  rw [Json.number, Json.int, mul_assoc, mul_assoc, add_mul, one_mul]
  refine sup_le ?_ ?_
  · rw [add_mul, mul_assoc]
    refine sup_le ?_ ?_
    · refine mul_le_literals (q := .zero) ?_ (frac_exp_le_lexemes (.inl rfl))
      rintro _ rfl
      exact fun _ _ => rfl
    · exact mul_le_literals (fun _ => opens_digit19) digits_le_lexemes
  · refine mul_le_literals (q := .neg) ?_ ?_
    · rintro _ rfl
      exact fun _ _ => rfl
    rw [add_mul, mul_assoc]
    refine sup_le ?_ ?_
    · refine mul_le_lexemes (letters_le_paths ?_) (frac_exp_le_lexemes (.inl rfl))
      rintro _ rfl
      exact keeps_of_continueAt (by decide) (by decide) fun _ _ => rfl
    · exact mul_le_lexemes (letters_le_paths fun _ => neg_digit19) digits_le_lexemes

/-! ### Strings -/

/-- A digit of an escape. -/
theorem keeps_hex {c : UInt8} (hc : isHex c) :
    keeps .inStringEscU c .inStringEscU1 ∧ keeps .inStringEscU1 c .inStringEscU12 ∧
      keeps .inStringEscU12 c .inStringEscU123 ∧ keeps .inStringEscU123 c .inString := by
  refine ⟨?_, ?_, ?_, ?_⟩
  · exact keeps_of_continueAt (by decide) (by decide) fun _ _ => if_pos hc
  · exact keeps_of_continueAt (by decide) (by decide) fun _ _ => if_pos hc
  · exact keeps_of_continueAt (by decide) (by decide) fun _ _ => if_pos hc
  · exact keeps_of_continueAt (by decide) (by decide) fun _ _ => if_pos hc

theorem inString_unescaped {c : UInt8} (hc : 0x20 ≤ c ∧ c ≠ 0x22 ∧ c ≠ 0x5C) :
    keeps .inString c .inString := by
  obtain ⟨hctrl, hquote, hslash⟩ := hc
  exact fun _ _ => (if_neg hquote).trans ((if_neg hslash).trans (if_neg (UInt8.not_lt.mpr hctrl)))

theorem escaped_le_paths : Json.escaped ≤ paths keeps .inStringEsc .inString := by
  refine sup_le ?_ ?_
  · refine letters_le_paths fun _ hc => ?_
    exact keeps_of_continueAt (by decide) (by decide) fun _ _ => if_pos hc
  · have hu : letter 0x75 ≤ paths keeps .inStringEsc .inStringEscU := by
      refine letters_le_paths ?_
      rintro _ rfl
      exact keeps_of_continueAt (by decide) (by decide) fun _ _ => rfl
    have h₁ : Json.hex ≤ paths keeps .inStringEscU .inStringEscU1 :=
      letters_le_paths fun _ hc => (keeps_hex hc).1
    have h₂ : Json.hex ≤ paths keeps .inStringEscU1 .inStringEscU12 :=
      letters_le_paths fun _ hc => (keeps_hex hc).2.1
    have h₃ : Json.hex ≤ paths keeps .inStringEscU12 .inStringEscU123 :=
      letters_le_paths fun _ hc => (keeps_hex hc).2.2.1
    have h₄ : Json.hex ≤ paths keeps .inStringEscU123 .inString :=
      letters_le_paths fun _ hc => (keeps_hex hc).2.2.2
    exact mul_le_paths (mul_le_paths (mul_le_paths (mul_le_paths hu h₁) h₂) h₃) h₄

/-- Between its quotes a string leads from one place to the same. -/
theorem chars_le_paths : Json.chars ≤ paths keeps .inString .inString := by
  refine kstar_le_paths (sup_le ?_ ?_)
  · exact letters_le_paths fun _ => inString_unescaped
  · refine mul_le_paths (letters_le_paths ?_) escaped_le_paths
    rintro _ rfl
    exact keeps_of_continueAt (by decide) (by decide) fun _ _ => rfl

/-- The rest of a string after its first quote. -/
theorem chars_quote_le_paths :
    Json.chars * letter 0x22 ≤ paths keeps .inString .endValue := by
  refine mul_le_paths chars_le_paths (letters_le_paths ?_)
  rintro _ rfl
  exact keeps_of_continueAt (by decide) (by decide) fun _ _ => rfl

/-- **A string is a lexeme.** -/
theorem quoted_le_literals : Json.quoted ≤ literals := by
  rw [Json.quoted, mul_assoc]
  refine mul_le_literals (q := .inString) ?_ (le_lexemes chars_quote_le_paths .endValue)
  rintro _ rfl
  exact fun _ _ => rfl

/-! ### Words -/

/-- A letter of a word. -/
theorem keeps_letter (q' : Step) {b : UInt8} {w : GoString} (hq : q ≠ .endTop) (hq' : q' ≠ .endTop)
    (h : ∀ (s : Scanner) (ps : List ParseState),
      (s.goto q ps).next b = (s.goto q ps).continueAt q')
    (hw : w ∈ lexemes q') : b :: w ∈ lexemes q := by
  obtain ⟨q'', hq'', hw⟩ := hw
  exact ⟨q'', hq'', .cons (keeps_of_continueAt hq hq' h) hw⟩

theorem true_mem_literals : ("true" : GoString) ∈ literals := by
  refine ⟨0x74, .t, [0x72, 0x75, 0x65], rfl, fun _ _ => rfl, ?_⟩
  refine keeps_letter .tr (by decide) (by decide) (fun _ _ => rfl) ?_
  refine keeps_letter .tru (by decide) (by decide) (fun _ _ => rfl) ?_
  refine keeps_letter .endValue (by decide) (by decide) (fun _ _ => rfl) ?_
  exact one_le_lexemes .endValue rfl

theorem false_mem_literals : ("false" : GoString) ∈ literals := by
  refine ⟨0x66, .f, [0x61, 0x6C, 0x73, 0x65], rfl, fun _ _ => rfl, ?_⟩
  refine keeps_letter .fa (by decide) (by decide) (fun _ _ => rfl) ?_
  refine keeps_letter .fal (by decide) (by decide) (fun _ _ => rfl) ?_
  refine keeps_letter .fals (by decide) (by decide) (fun _ _ => rfl) ?_
  refine keeps_letter .endValue (by decide) (by decide) (fun _ _ => rfl) ?_
  exact one_le_lexemes .endValue rfl

theorem null_mem_literals : ("null" : GoString) ∈ literals := by
  refine ⟨0x6E, .n, [0x75, 0x6C, 0x6C], rfl, fun _ _ => rfl, ?_⟩
  refine keeps_letter .nu (by decide) (by decide) (fun _ _ => rfl) ?_
  refine keeps_letter .nul (by decide) (by decide) (fun _ _ => rfl) ?_
  refine keeps_letter .endValue (by decide) (by decide) (fun _ _ => rfl) ?_
  exact one_le_lexemes .endValue rfl

/-! ### What follows a lexeme -/

/-- A byte that ends a number. -/
def isTerminator (c : UInt8) : Prop :=
  isSpace c ∨ c = ','.toUInt8 ∨ c = endArray ∨ c = endObject ∨ c = ':'.toUInt8

instance : DecidablePred isTerminator := fun c => by unfold isTerminator; infer_instance

variable {s : Scanner} {ps : List ParseState} {c : UInt8}

theorem isTerminator_ne (hc : isTerminator c) :
    ¬ isDecimal c ∧ ¬ isExp c ∧ c ≠ '.'.toUInt8 := by
  rcases hc with (rfl | rfl | rfl | rfl) | rfl | rfl | rfl | rfl <;> decide

/-- The step after a value is the same wherever the value has ended. -/
theorem stateEndValue_with (s : Scanner) (q : Step) (c : UInt8) :
    ({ s with step := q } : Scanner).stateEndValue c = s.stateEndValue c := by
  rcases s with ⟨_, _, _ | ⟨_ | _ | _, ps⟩, _, _, _, _, _⟩
  · rfl
  · rfl
  · rfl
  · rfl

theorem stateEndValue_goto (hq : q ≠ .endTop) :
    (s.goto q ps).stateEndValue c = (s.goto .endValue ps).stateEndValue c := by
  rw [← goto_with s (by decide : Step.endValue ≠ .endTop) hq]
  exact stateEndValue_with _ _ _

/-- **After a lexeme** a byte that ends one is taken as after any value. -/
theorem next_of_ended (hq : Ended q) (hc : isTerminator c) :
    (s.goto q ps).next c = (s.goto .endValue ps).next c := by
  obtain ⟨hdigit, hexp, hdot⟩ := isTerminator_ne hc
  have h0 : ∀ q', q' ≠ .endTop →
      (s.goto q' ps).state0 c = (s.goto .endValue ps).stateEndValue c := fun q' hq' =>
    (if_neg hdot).trans ((if_neg hexp).trans (stateEndValue_goto hq'))
  cases hq with
  | endValue => rfl
  | zero => exact h0 .zero (by decide)
  | one => exact (if_neg hdigit).trans (h0 .one (by decide))
  | dot0 => exact (if_neg hdigit).trans ((if_neg hexp).trans (stateEndValue_goto (by decide)))
  | e0 => exact (if_neg hdigit).trans (stateEndValue_goto (by decide))

/-- The end of the text after a lexeme is the end of it after any value. -/
theorem eof_of_ended (hq : Ended q) : (s.goto q ps).eof = (s.goto .endValue ps).eof := by
  have hnext : (s.goto q ps).next ' '.toUInt8 = (s.goto .endValue ps).next ' '.toUInt8 :=
    next_of_ended hq (.inl (.inl rfl))
  cases hq with
  | endValue => rfl
  | zero =>
    rw [eof, hnext]
    rfl
  | one =>
    rw [eof, hnext]
    rfl
  | dot0 =>
    rw [eof, hnext]
    rfl
  | e0 =>
    rw [eof, hnext]
    rfl

end Scanner

end PluginsDatastore
