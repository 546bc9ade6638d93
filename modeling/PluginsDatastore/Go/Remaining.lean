import PluginsDatastore.Go.Scanner
import PluginsDatastore.Words.Json

/-!
# What the scanner may still read

A scanner that has found no error is a step and a stack (`goto`). `remaining` is the
language of the texts such a scanner may still read: what completes the part it is in,
and then `closes`, what completes the arrays and objects on the stack. Each byte takes
the scanner to an error, or to a step and a stack such that the byte and a text that
remains there are a text that remained before (`Goes`, `goes_next`).
-/

namespace PluginsDatastore

open Words Computability

/-! ### The texts that remain -/

/-- The texts that complete what a stack is inside of, from the end of a value on. -/
@[simp] def closes : List ParseState → Language UInt8
  | [] => Json.ws
  | .parseArrayValue :: ps => Json.ws * Json.arrayTail * closes ps
  | .parseObjectValue :: ps => Json.ws * Json.objectTail * closes ps
  | .parseObjectKey :: ps => Json.ws * letter 0x3A * Json.spaced * Json.objectTail * closes ps

/-- **The texts that remain** in a step and with a stack. There is no step after an
opening bracket without its entry on the stack. -/
@[simp] def remaining : Step → List ParseState → Language UInt8
  | .beginValue, ps => Json.ws * Json.value * closes ps
  | .beginValueOrEmpty, .parseArrayValue :: ps =>
    Json.ws * letter 0x5D * closes ps + Json.ws * Json.value * closes (.parseArrayValue :: ps)
  | .beginString, ps => Json.ws * Json.quoted * closes ps
  | .beginStringOrEmpty, .parseObjectKey :: ps =>
    Json.ws * letter 0x7D * closes ps + Json.ws * Json.quoted * closes (.parseObjectKey :: ps)
  | .endValue, ps => closes ps
  | .endTop, _ => Json.ws
  | .inString, ps => Json.chars * letter 0x22 * closes ps
  | .inStringEsc, ps => Json.escaped * Json.chars * letter 0x22 * closes ps
  | .inStringEscU, ps =>
    Json.hex * Json.hex * Json.hex * Json.hex * Json.chars * letter 0x22 * closes ps
  | .inStringEscU1, ps => Json.hex * Json.hex * Json.hex * Json.chars * letter 0x22 * closes ps
  | .inStringEscU12, ps => Json.hex * Json.hex * Json.chars * letter 0x22 * closes ps
  | .inStringEscU123, ps => Json.hex * Json.chars * letter 0x22 * closes ps
  | .neg, ps => Json.int * (1 + Json.frac) * (1 + Json.exp) * closes ps
  | .one, ps => Json.digit∗ * (1 + Json.frac) * (1 + Json.exp) * closes ps
  | .zero, ps => (1 + Json.frac) * (1 + Json.exp) * closes ps
  | .dot, ps => Json.digit * Json.digit∗ * (1 + Json.exp) * closes ps
  | .dot0, ps => Json.digit∗ * (1 + Json.exp) * closes ps
  | .e, ps => (1 + letters isSign) * Json.digit * Json.digit∗ * closes ps
  | .eSign, ps => Json.digit * Json.digit∗ * closes ps
  | .e0, ps => Json.digit∗ * closes ps
  | .t, ps => letter 0x72 * letter 0x75 * letter 0x65 * closes ps
  | .tr, ps => letter 0x75 * letter 0x65 * closes ps
  | .tru, ps => letter 0x65 * closes ps
  | .f, ps => letter 0x61 * letter 0x6C * letter 0x73 * letter 0x65 * closes ps
  | .fa, ps => letter 0x6C * letter 0x73 * letter 0x65 * closes ps
  | .fal, ps => letter 0x73 * letter 0x65 * closes ps
  | .fals, ps => letter 0x65 * closes ps
  | .n, ps => letter 0x75 * letter 0x6C * letter 0x6C * closes ps
  | .nu, ps => letter 0x6C * letter 0x6C * closes ps
  | .nul, ps => letter 0x6C * closes ps
  | _, _ => ⊤

namespace Scanner

/-- **What a byte may do**: the scanner finds an error, or it goes on such that the byte
and what remains then are of the language `L`. -/
inductive Goes (s : Scanner) (c : UInt8) (L : Language UInt8) : ScanCode × Scanner → Prop
  | stops {op : ScanCode} {s' : Scanner} {msg : GoString} (herr : s'.err = some ⟨msg, s.bytes⟩)
      (hstep : s'.step = .error) : Goes s c L (op, s')
  | goes {op : ScanCode} {q : Step} {ps : List ParseState} (hop : op ≠ .scanError) (hq : q.Live)
      (hL : letter c * remaining q ps ≤ L) : Goes s c L (op, s.goto q ps)

variable (s : Scanner) {q : Step} {ps : List ParseState} {c : UInt8} {K L L' : Language UInt8}
  {r : ScanCode × Scanner}

theorem Goes.mono (h : Goes s c L r) (hL : L ≤ L') : Goes s c L' r := by
  cases h with
  | stops herr hstep => exact .stops herr hstep
  | goes hop hq h => exact .goes hop hq (h.trans hL)

theorem goes_error (context : GoString) : Goes s c L ((s.goto q ps).error c context) :=
  .stops rfl rfl

theorem goes_continueAt {q' : Step} (hq : q ≠ .endTop) (hq' : q'.Live ∧ q' ≠ .endTop)
    (hL : letter c * remaining q' ps ≤ L) : Goes s c L ((s.goto q ps).continueAt q') := by
  have hgoto : (s.goto q ps).continueAt q' = (.scanContinue, s.goto q' ps) := by
    simp [continueAt, goto, hq, hq'.2]
  rw [hgoto]
  exact .goes (by decide) hq'.1 hL

/-! ### Space -/

theorem letter_mul_ws_le (hc : isSpace c) : letter c * Json.ws ≤ Json.ws :=
  (mul_le_mul_left (letter_le hc) _).trans mul_kstar_le_kstar

/-- A space before white space. -/
theorem skip_le (hc : isSpace c) : letter c * (Json.ws * L) ≤ Json.ws * L := by
  rw [← mul_assoc]
  exact mul_le_mul_left (letter_mul_ws_le hc) _

theorem le_ws_mul : L ≤ Json.ws * L := le_mul_of_one_le_left' one_le_kstar

/-! ### The end of a value -/

theorem goes_close {op : ScanCode} (hop : op ≠ .scanError) (hL : letter c * closes ps ≤ L) :
    Goes s c L (op, s.close ps) := by
  unfold close
  refine .goes hop ?_ ?_
  · split_ifs
    · decide
    · decide
  · cases ps with
    | nil => exact hL
    | cons p ps => exact hL

theorem goes_stateEndValue (hq : q ≠ .endTop) :
    Goes s c (closes ps) ((s.goto q ps).stateEndValue c) := by
  cases ps with
  | nil =>
    change Goes s c _ ((s.goto .endTop []).stateEndTop c)
    unfold stateEndTop
    split_ifs with hc
    · exact .goes (by decide) (by decide) (letter_mul_ws_le hc)
    · exact .stops rfl rfl
  | cons p ps =>
    by_cases hspace : isSpace c
    · rw [stateEndValue_space s hq hspace]
      refine .goes (by decide) (by decide) ?_
      cases p with
      | parseObjectKey =>
        simp only [remaining, closes, mul_assoc]
        exact skip_le hspace
      | parseObjectValue =>
        simp only [remaining, closes, mul_assoc]
        exact skip_le hspace
      | parseArrayValue =>
        simp only [remaining, closes, mul_assoc]
        exact skip_le hspace
    · cases p with
      | parseObjectKey =>
        rw [stateEndValue_key s hq hspace]
        split_ifs with hc
        · subst hc
          refine .goes (by decide) (by decide) ?_
          simp only [remaining, closes, Json.spaced, mul_assoc]
          exact le_ws_mul
        · exact goes_error s _
      | parseObjectValue =>
        rw [stateEndValue_value s hq hspace]
        split_ifs with hcomma hbrace
        · subst hcomma
          refine .goes (by decide) (by decide) ?_
          -- a comma and a member, and what follows it
          calc letter 0x2C * (Json.ws * Json.quoted
                * (Json.ws * letter 0x3A * Json.spaced * Json.objectTail * closes ps))
              = letter 0x2C * (Json.pair * Json.objectTail) * closes ps := by
                simp only [Json.pair, mul_assoc]
            _ ≤ letter 0x2C * (Json.members * letter 0x7D) * closes ps := 
                mul_le_mul_left (mul_le_mul_right Json.pair_mul_objectTail_le _) _
            _ ≤ Json.objectTail * closes ps := by
                rw [← mul_assoc]
                gcongr
                exact le_sup_right
            _ ≤ closes (.parseObjectValue :: ps) := by
                rw [closes, mul_assoc]
                exact le_ws_mul
        · subst hbrace
          refine goes_close s (by decide) ?_
          rw [closes, mul_assoc]
          refine le_ws_mul.trans' ?_
          gcongr
          exact le_sup_left
        · exact goes_error s _
      | parseArrayValue =>
        rw [stateEndValue_array s hq hspace]
        split_ifs with hcomma hbracket
        · subst hcomma
          refine .goes (by decide) (by decide) ?_
          -- a comma and an element, and what follows it
          calc letter 0x2C * (Json.ws * Json.value * (Json.ws * Json.arrayTail * closes ps))
              = letter 0x2C * (Json.spaced * Json.arrayTail) * closes ps := by
                simp only [Json.spaced, mul_assoc]
            _ ≤ letter 0x2C * (Json.elements * letter 0x5D) * closes ps := 
                mul_le_mul_left (mul_le_mul_right Json.spaced_mul_arrayTail_le _) _
            _ ≤ Json.arrayTail * closes ps := by
                rw [← mul_assoc]
                gcongr
                exact le_sup_right
            _ ≤ closes (.parseArrayValue :: ps) := by
                rw [closes, mul_assoc]
                exact le_ws_mul
        · subst hbracket
          refine goes_close s (by decide) ?_
          rw [closes, mul_assoc]
          refine le_ws_mul.trans' ?_
          gcongr
          exact le_sup_left
        · exact goes_error s _

/-! ### The beginning of a value -/

theorem goes_skip (hc : isSpace c) (hq : q.Live) (hL : remaining q ps = Json.ws * L) :
    Goes s c (remaining q ps) (.scanSkipSpace, s.goto q ps) := by
  refine .goes (by decide) hq ?_
  rw [hL]
  exact skip_le hc

/-- The first byte of a value and the rest of it. -/
theorem goes_value {op : ScanCode} (hop : op ≠ .scanError) {ps' : List ParseState} (hq : q.Live)
    (hK : letter c * remaining q ps' ≤ Json.value * K) :
    Goes s c (Json.ws * Json.value * K) (op, s.goto q ps') := by
  refine .goes hop hq (hK.trans ?_)
  rw [mul_assoc]
  exact le_ws_mul

theorem goes_stateBeginValue (hq : q ≠ .endTop) (hL : Json.ws * Json.value * closes ps ≤ L)
    (hspace : isSpace c → Goes s c L (.scanSkipSpace, s.goto q ps)) :
    Goes s c L ((s.goto q ps).stateBeginValue c) := by
  rw [stateBeginValue_goto s hq]
  by_cases hc : isSpace c
  · rw [if_pos hc]
    exact hspace hc
  · rw [if_neg hc]
    refine Goes.mono s ?_ hL
    split_ifs with hbrace hbracket hquote hminus hzero ht hf hn hdigit
    · subst hbrace
      refine goes_value s (by decide) (by decide) ?_
      refine (le_of_eq ?_).trans (mul_le_mul_left Json.objectTail_le_value _)
      simp only [remaining, closes, Json.pair, mul_add, add_mul, mul_assoc]
      rfl
    · subst hbracket
      refine goes_value s (by decide) (by decide) ?_
      refine (le_of_eq ?_).trans (mul_le_mul_left Json.arrayTail_le_value _)
      simp only [remaining, closes, Json.spaced, mul_add, add_mul, mul_assoc]
      rfl
    · subst hquote
      refine goes_value s (by decide) (by decide) ?_
      rw [remaining, ← mul_assoc, ← mul_assoc]
      exact mul_le_mul_left Json.quoted_le_value _
    · subst hminus
      refine goes_value s (by decide) (by decide) ?_
      rw [remaining, ← mul_assoc, ← mul_assoc, ← mul_assoc]
      exact mul_le_mul_left (Json.int_le_value (mul_le_mul_left le_sup_right _)) _
    · subst hzero
      refine goes_value s (by decide) (by decide) ?_
      rw [remaining, ← mul_assoc, ← mul_assoc]
      refine mul_le_mul_left (Json.int_le_value ?_) _
      exact le_mul_of_one_le_of_le le_sup_left le_sup_left
    · subst ht
      refine goes_value s (by decide) (by decide) ?_
      rw [remaining, ← mul_assoc, ← mul_assoc, ← mul_assoc]
      exact mul_le_mul_left Json.true_le_value _
    · subst hf
      refine goes_value s (by decide) (by decide) ?_
      rw [remaining, ← mul_assoc, ← mul_assoc, ← mul_assoc, ← mul_assoc]
      exact mul_le_mul_left Json.false_le_value _
    · subst hn
      refine goes_value s (by decide) (by decide) ?_
      rw [remaining, ← mul_assoc, ← mul_assoc, ← mul_assoc]
      exact mul_le_mul_left Json.null_le_value _
    · refine goes_value s (by decide) (by decide) ?_
      rw [remaining, ← mul_assoc, ← mul_assoc, ← mul_assoc]
      refine mul_le_mul_left (Json.int_le_value ?_) _
      refine le_mul_of_one_le_of_le le_sup_left (le_sup_right.trans' ?_)
      exact mul_le_mul_left (letter_le hdigit) _
    · exact goes_error s _

/-- After a bracket that opens an array, its entry is on the stack. -/
theorem remaining_beginValueOrEmpty (ps : List ParseState) :
    (∃ ps', ps = .parseArrayValue :: ps') ∨ remaining .beginValueOrEmpty ps = ⊤ := by
  rcases ps with _ | ⟨_ | _ | _, ps⟩
  · exact .inr rfl
  · exact .inr rfl
  · exact .inr rfl
  · exact .inl ⟨ps, rfl⟩

theorem goes_stateBeginValueOrEmpty :
    Goes s c (remaining .beginValueOrEmpty ps)
      ((s.goto .beginValueOrEmpty ps).stateBeginValueOrEmpty c) := by
  have hempty : Step.beginValueOrEmpty ≠ .endTop := by decide
  unfold stateBeginValueOrEmpty
  rcases remaining_beginValueOrEmpty ps with ⟨ps, rfl⟩ | htop
  · split_ifs with hspace hbracket
    · refine goes_skip s hspace (by decide) (L := letter 0x5D * closes ps
        + Json.value * closes (.parseArrayValue :: ps)) ?_
      rw [remaining, mul_add, mul_assoc, mul_assoc]
    · subst hbracket
      rw [stateEndValue_array s hempty (by decide)]
      refine goes_close s (by decide) (le_sup_left.trans' ?_)
      rw [mul_assoc]
      exact le_ws_mul
    · exact goes_stateBeginValue s hempty le_sup_right fun hc => absurd hc hspace
  · rw [htop]
    split_ifs
    · exact .goes (by decide) (by decide) le_top
    · exact (goes_stateEndValue s hempty).mono s le_top
    · exact goes_stateBeginValue s hempty le_top fun _ => .goes (by decide) (by decide) le_top

/-! ### Strings -/

/-- The quote that begins a string, and the rest of it. -/
theorem goes_stateBeginString (hq : q ≠ .endTop) (hL : Json.ws * Json.quoted * closes ps ≤ L)
    (hspace : isSpace c → Goes s c L (.scanSkipSpace, s.goto q ps)) :
    Goes s c L ((s.goto q ps).stateBeginString c) := by
  unfold stateBeginString
  split_ifs with hc hquote
  · exact hspace hc
  · subst hquote
    have hgoto : ({ s.goto q ps with step := .inString } : Scanner) = s.goto .inString ps :=
      goto_with s hq (by decide)
    rw [hgoto]
    refine .goes (by decide) (by decide) (hL.trans' ?_)
    rw [remaining, mul_assoc, mul_assoc Json.ws, Json.quoted]
    refine le_ws_mul.trans' (le_of_eq ?_)
    simp only [mul_assoc]
    rfl
  · exact goes_error s _

/-- After a brace that opens an object, its entry is on the stack. -/
theorem remaining_beginStringOrEmpty (ps : List ParseState) :
    (∃ ps', ps = .parseObjectKey :: ps') ∨ remaining .beginStringOrEmpty ps = ⊤ := by
  rcases ps with _ | ⟨_ | _ | _, ps⟩
  · exact .inr rfl
  · exact .inl ⟨ps, rfl⟩
  · exact .inr rfl
  · exact .inr rfl

theorem goes_stateBeginStringOrEmpty :
    Goes s c (remaining .beginStringOrEmpty ps)
      ((s.goto .beginStringOrEmpty ps).stateBeginStringOrEmpty c) := by
  have hempty : Step.beginStringOrEmpty ≠ .endTop := by decide
  unfold stateBeginStringOrEmpty
  have hset : ∀ ps', ({ s.goto .beginStringOrEmpty ps with parseState := ps' } : Scanner)
      = s.goto .beginStringOrEmpty ps' := fun _ => rfl
  rw [hset]
  rcases remaining_beginStringOrEmpty ps with ⟨ps, rfl⟩ | htop
  · split_ifs with hspace hbrace
    · refine goes_skip s hspace (by decide) (L := letter 0x7D * closes ps
        + Json.quoted * closes (.parseObjectKey :: ps)) ?_
      rw [remaining, mul_add, mul_assoc, mul_assoc]
    · subst hbrace
      rw [stateEndValue_value s hempty (by decide)]
      refine goes_close s (by decide) (le_sup_left.trans' ?_)
      rw [mul_assoc]
      exact le_ws_mul
    · exact goes_stateBeginString s hempty le_sup_right fun hc => absurd hc hspace
  · rw [htop]
    split_ifs
    · exact .goes (by decide) (by decide) le_top
    · exact (goes_stateEndValue s hempty).mono s le_top
    · exact goes_stateBeginString s hempty le_top fun _ => .goes (by decide) (by decide) le_top

theorem goes_stateInString :
    Goes s c (remaining .inString ps) ((s.goto .inString ps).stateInString c) := by
  have hquoted : (1 : Language UInt8) ≤ Json.chars := one_le_kstar
  unfold stateInString
  split_ifs with hquote hslash hctrl
  · subst hquote
    refine goes_continueAt s (by decide) (by decide) ?_
    exact mul_le_mul_left (le_mul_of_one_le_left' hquoted) _
  · subst hslash
    refine goes_continueAt s (by decide) (by decide) ?_
    simp only [remaining, ← mul_assoc]
    refine mul_le_mul_left (mul_le_mul_left ?_ _) _
    exact (mul_le_mul_left le_sup_right _).trans mul_kstar_le_kstar
  · exact goes_error s _
  · refine .goes (by decide) (by decide) ?_
    rw [remaining, ← mul_assoc, ← mul_assoc]
    refine mul_le_mul_left (mul_le_mul_left ?_ _) _
    have hc : letter c ≤ Json.unescaped :=
      letters_mono fun _ h => h ▸ ⟨UInt8.not_lt.mp hctrl, hquote, hslash⟩
    exact (mul_le_mul_left (hc.trans le_sup_left) _).trans mul_kstar_le_kstar

theorem goes_stateInStringEsc :
    Goes s c (remaining .inStringEsc ps) ((s.goto .inStringEsc ps).stateInStringEsc c) := by
  unfold stateInStringEsc
  split_ifs with hc hu
  · refine goes_continueAt s (by decide) (by decide) ?_
    rw [remaining, ← mul_assoc, ← mul_assoc]
    refine mul_le_mul_left (mul_le_mul_left (mul_le_mul_left (le_sup_left.trans' ?_) _) _) _
    exact letter_le hc
  · subst hu
    refine goes_continueAt s (by decide) (by decide) ?_
    simp only [remaining, ← mul_assoc]
    exact mul_le_mul_left (mul_le_mul_left (mul_le_mul_left le_sup_right _) _) _
  · exact goes_error s _

/-- A state that reads a hexadecimal digit. -/
theorem goes_stateHex {q' : Step} (hq : q ≠ .endTop) (hq' : q'.Live ∧ q' ≠ .endTop)
    (hL : Json.hex * remaining q' ps ≤ L) : Goes s c L ((s.goto q ps).stateHex q' c) := by
  unfold stateHex
  split_ifs with hc
  · refine goes_continueAt s hq hq' (hL.trans' ?_)
    exact mul_le_mul_left (letter_le hc) _
  · exact goes_error s _

/-! ### Numbers -/

theorem goes_stateNeg : Goes s c (remaining .neg ps) ((s.goto .neg ps).stateNeg c) := by
  unfold stateNeg
  split_ifs with hzero hdigit
  · subst hzero
    refine goes_continueAt s (by decide) (by decide) ?_
    simp only [remaining, ← mul_assoc]
    exact mul_le_mul_left (mul_le_mul_left (mul_le_mul_left le_sup_left _) _) _
  · refine goes_continueAt s (by decide) (by decide) ?_
    simp only [remaining, ← mul_assoc]
    refine mul_le_mul_left (mul_le_mul_left (mul_le_mul_left (le_sup_right.trans' ?_) _) _) _
    exact mul_le_mul_left (letter_le hdigit) _
  · exact goes_error s _

/-- The fraction and the exponent may be missing. -/
theorem le_one_add_mul : L ≤ (1 + K) * L := le_mul_of_one_le_left' le_sup_left

theorem goes_state0 (hq : q ≠ .endTop) :
    Goes s c (remaining .zero ps) ((s.goto q ps).state0 c) := by
  unfold state0
  split_ifs with hdot he
  · subst hdot
    refine goes_continueAt s hq (by decide) ?_
    simp only [remaining, ← mul_assoc]
    exact mul_le_mul_left (mul_le_mul_left le_sup_right _) _
  · refine goes_continueAt s hq (by decide) ?_
    simp only [remaining, ← mul_assoc]
    refine mul_le_mul_left (le_one_add_mul.trans' (le_sup_right.trans' ?_)) _
    exact mul_le_mul_left (mul_le_mul_left (mul_le_mul_left (letter_le he) _) _) _
  · refine (goes_stateEndValue s hq).mono s ?_
    rw [remaining, mul_assoc]
    exact le_one_add_mul.trans le_one_add_mul

/-- A digit before digits. -/
theorem digit_mul_le (hc : isDecimal c) : letter c * Json.digit∗ ≤ Json.digit∗ :=
  (mul_le_mul_left (letter_le hc) _).trans mul_kstar_le_kstar

/-- Digits may be missing. -/
theorem le_digits_mul : L ≤ Json.digit∗ * L := le_mul_of_one_le_left' one_le_kstar

theorem goes_state1 : Goes s c (remaining .one ps) ((s.goto .one ps).state1 c) := by
  unfold state1
  split_ifs with hdigit
  · refine goes_continueAt s (by decide) (by decide) ?_
    simp only [remaining, ← mul_assoc]
    exact mul_le_mul_left (mul_le_mul_left (mul_le_mul_left (digit_mul_le hdigit) _) _) _
  · refine (goes_state0 s (by decide)).mono s ?_
    simp only [remaining, mul_assoc]
    exact le_digits_mul

theorem goes_stateDot : Goes s c (remaining .dot ps) ((s.goto .dot ps).stateDot c) := by
  unfold stateDot
  split_ifs with hdigit
  · refine goes_continueAt s (by decide) (by decide) ?_
    simp only [remaining, ← mul_assoc]
    refine mul_le_mul_left (mul_le_mul_left (mul_le_mul_left ?_ _) _) _
    exact letter_le hdigit
  · exact goes_error s _

theorem goes_stateDot0 : Goes s c (remaining .dot0 ps) ((s.goto .dot0 ps).stateDot0 c) := by
  unfold stateDot0
  split_ifs with hdigit he
  · refine .goes (by decide) (by decide) ?_
    simp only [remaining, ← mul_assoc]
    exact mul_le_mul_left (mul_le_mul_left (digit_mul_le hdigit) _) _
  · refine goes_continueAt s (by decide) (by decide) ?_
    simp only [remaining, mul_assoc]
    refine le_digits_mul.trans' ?_
    simp only [← mul_assoc]
    refine mul_le_mul_left (le_sup_right.trans' ?_) _
    exact mul_le_mul_left (mul_le_mul_left (mul_le_mul_left (letter_le he) _) _) _
  · refine (goes_stateEndValue s (by decide)).mono s ?_
    rw [remaining, mul_assoc]
    exact le_one_add_mul.trans le_digits_mul

theorem goes_stateESign (hq : q ≠ .endTop) :
    Goes s c (remaining .eSign ps) ((s.goto q ps).stateESign c) := by
  unfold stateESign
  split_ifs with hdigit
  · refine goes_continueAt s hq (by decide) ?_
    simp only [remaining, ← mul_assoc]
    exact mul_le_mul_left (mul_le_mul_left (letter_le hdigit) _) _
  · exact goes_error s _

theorem goes_stateE : Goes s c (remaining .e ps) ((s.goto .e ps).stateE c) := by
  unfold stateE
  split_ifs with hsign
  · refine goes_continueAt s (by decide) (by decide) ?_
    simp only [remaining, ← mul_assoc]
    refine mul_le_mul_left (mul_le_mul_left (mul_le_mul_left (le_sup_right.trans' ?_) _) _) _
    exact letter_le hsign
  · refine (goes_stateESign s (by decide)).mono s ?_
    simp only [remaining, mul_assoc]
    exact le_one_add_mul

theorem goes_stateE0 : Goes s c (remaining .e0 ps) ((s.goto .e0 ps).stateE0 c) := by
  unfold stateE0
  split_ifs with hdigit
  · refine .goes (by decide) (by decide) ?_
    rw [remaining, ← mul_assoc]
    exact mul_le_mul_left (digit_mul_le hdigit) _
  · exact (goes_stateEndValue s (by decide)).mono s le_digits_mul

/-! ### Every step -/

/-- A state that reads a letter of a word. -/
theorem goes_stateLetter {q' : Step} {b : UInt8} {context : GoString} (hq : q ≠ .endTop)
    (hq' : q'.Live ∧ q' ≠ .endTop) (hL : letter b * remaining q' ps ≤ L) :
    Goes s c L ((s.goto q ps).stateLetter b q' context c) := by
  unfold stateLetter
  split_ifs with hc
  · subst hc
    exact goes_continueAt s hq hq' hL
  · exact goes_error s _

/-- **One step of the scanner** goes backwards through the languages of what remains. -/
theorem goes_next (hq : q.Live) (ps : List ParseState) (c : UInt8) :
    Goes s c (remaining q ps) ((s.goto q ps).next c) := by
  cases q with
  | beginValueOrEmpty => exact goes_stateBeginValueOrEmpty s
  | beginValue =>
    refine goes_stateBeginValue s (by decide) le_rfl fun hc => ?_
    exact goes_skip s hc hq (mul_assoc _ _ _)
  | beginStringOrEmpty => exact goes_stateBeginStringOrEmpty s
  | beginString =>
    refine goes_stateBeginString s (by decide) le_rfl fun hc => ?_
    exact goes_skip s hc hq (mul_assoc _ _ _)
  | endValue => exact goes_stateEndValue s (by decide)
  | endTop =>
    change Goes s c Json.ws (.scanEnd, _)
    split_ifs with hc
    · exact .goes (by decide) hq (letter_mul_ws_le hc)
    · exact .stops rfl rfl
  | inString => exact goes_stateInString s
  | inStringEsc => exact goes_stateInStringEsc s
  | inStringEscU =>
    refine goes_stateHex s (by decide) (by decide) (le_of_eq ?_)
    simp only [remaining, mul_assoc]
  | inStringEscU1 =>
    refine goes_stateHex s (by decide) (by decide) (le_of_eq ?_)
    simp only [remaining, mul_assoc]
  | inStringEscU12 =>
    refine goes_stateHex s (by decide) (by decide) (le_of_eq ?_)
    simp only [remaining, mul_assoc]
  | inStringEscU123 =>
    refine goes_stateHex s (by decide) (by decide) (le_of_eq ?_)
    simp only [remaining, mul_assoc]
  | neg => exact goes_stateNeg s
  | one => exact goes_state1 s
  | zero => exact goes_state0 s (by decide)
  | dot => exact goes_stateDot s
  | dot0 => exact goes_stateDot0 s
  | e => exact goes_stateE s
  | eSign => exact goes_stateESign s (by decide)
  | e0 => exact goes_stateE0 s
  | t =>
    refine goes_stateLetter s (by decide) (by decide) (le_of_eq ?_)
    simp only [remaining, mul_assoc]
    rfl
  | tr =>
    refine goes_stateLetter s (by decide) (by decide) (le_of_eq ?_)
    simp only [remaining, mul_assoc]
    rfl
  | tru => exact goes_stateLetter s (by decide) (by decide) le_rfl
  | f =>
    refine goes_stateLetter s (by decide) (by decide) (le_of_eq ?_)
    simp only [remaining, mul_assoc]
    rfl
  | fa =>
    refine goes_stateLetter s (by decide) (by decide) (le_of_eq ?_)
    simp only [remaining, mul_assoc]
    rfl
  | fal =>
    refine goes_stateLetter s (by decide) (by decide) (le_of_eq ?_)
    simp only [remaining, mul_assoc]
    rfl
  | fals => exact goes_stateLetter s (by decide) (by decide) le_rfl
  | n =>
    refine goes_stateLetter s (by decide) (by decide) (le_of_eq ?_)
    simp only [remaining, mul_assoc]
    rfl
  | nu =>
    refine goes_stateLetter s (by decide) (by decide) (le_of_eq ?_)
    simp only [remaining, mul_assoc]
    rfl
  | nul => exact goes_stateLetter s (by decide) (by decide) le_rfl
  | error => exact absurd rfl hq.1
  | redo => exact absurd rfl hq.2

/-! ### The end of the text -/

/-- Where the scanner may stop, nothing need remain. -/
theorem nil_mem_remaining (hq : q.Live) (hop : (s.goto q ps).eof.1 ≠ .scanError) :
    [] ∈ remaining q ps := by
  have hws : (1 : Language UInt8) ≤ Json.ws := one_le_kstar
  have hdigits : (1 : Language UInt8) ≤ Json.digit∗ := one_le_kstar
  have hfrac : (1 : Language UInt8) ≤ 1 + Json.frac := le_sup_left
  have hexp : (1 : Language UInt8) ≤ 1 + Json.exp := le_sup_left
  cases q
  case endTop => exact hws rfl
  case endValue =>
    cases ps with
    | nil => exact hws rfl
    | cons p ps => exact absurd rfl hop
  case zero =>
    cases ps with
    | nil => exact one_le_mul (one_le_mul hfrac hexp) hws rfl
    | cons p ps => exact absurd rfl hop
  case one =>
    cases ps with
    | nil => exact one_le_mul (one_le_mul (one_le_mul hdigits hfrac) hexp) hws rfl
    | cons p ps => exact absurd rfl hop
  case dot0 =>
    cases ps with
    | nil => exact one_le_mul (one_le_mul hdigits hexp) hws rfl
    | cons p ps => exact absurd rfl hop
  case e0 =>
    cases ps with
    | nil => exact one_le_mul hdigits hws rfl
    | cons p ps => exact absurd rfl hop
  case error => exact absurd rfl hq.1
  case redo => exact absurd rfl hq.2
  -- in all other steps a space does not end the text
  all_goals exact absurd rfl hop

end Scanner

open Scanner

variable {s : Scanner} {q : Step} {ps : List ParseState} {w : GoString}

/-- An error that the scanner has found is reported at the end of the text at the latest. -/
theorem checkLoop_error (herr : s.err ≠ none) (hstep : s.step = .error) :
    checkLoop s w = s.err := by
  cases w with
  | nil =>
    have heof : s.eof = (.scanError, s) := if_pos herr
    rw [checkLoop_nil, heof]
    rfl
  | cons c w =>
    rw [checkLoop_cons]
    simp [Scanner.next, hstep, stateError]

/-- **A text that passes the check** is one of those that remained. -/
theorem mem_remaining_of_checkLoop (hq : q.Live) (h : checkLoop (s.goto q ps) w = none) :
    w ∈ remaining q ps := by
  induction w generalizing s q ps with
  | nil =>
    refine nil_mem_remaining s hq fun hop => ?_
    rw [checkLoop_nil, if_pos hop] at h
    exact err_eof _ hop h
  | cons c w ih =>
    have hgoes := goes_next { s with bytes := s.bytes + 1 } hq ps c
    rw [checkLoop_cons] at h
    change (let r := (({ s with bytes := s.bytes + 1 } : Scanner).goto q ps).next c
      if r.1 = .scanError then r.2.err else checkLoop r.2 w) = none at h
    generalize (({ s with bytes := s.bytes + 1 } : Scanner).goto q ps).next c = r at h hgoes
    cases hgoes with
    | stops herr hstep =>
      have hne := herr ▸ Option.some_ne_none _
      simp only [checkLoop_error hne hstep, ite_self] at h
      exact absurd h hne
    | goes hop hq' hL =>
      simp only [if_neg hop] at h
      exact hL (cons_mem_letters_mul.mpr ⟨rfl, ih hq' h⟩)

end PluginsDatastore
