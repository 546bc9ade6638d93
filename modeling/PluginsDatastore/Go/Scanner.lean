import PluginsDatastore.Go.Json

/-!
# The scanner of `encoding/json`

`scanner.go`: a state machine that is fed a JSON text one byte at a time. The field
`step` names the function that takes the next byte, and `parseState` is the stack of
the arrays and objects the text is inside of. Each byte is answered by a code, by which
the decoder follows along.

The stack is a list with the innermost entry first. The functions that look at the
innermost entry are steps of the scanner only while there is one.
-/

namespace PluginsDatastore

/-! ### The texts of errors -/

/-- `strconv.IsPrint`, of a rune below 256. -/
def isPrint (r : ℕ) : Bool := (0x20 ≤ r ∧ r < 0x7F) ∨ (0xA1 ≤ r ∧ r ≤ 0xFF ∧ r ≠ 0xAD)

/-- `strconv.Quote(string(c))` between its quotes, for a byte `c`: the conversion takes
the byte for a rune. -/
def quoteRune (c : UInt8) : GoString :=
  let hex : GoString := [hexDigit (c.toNat / 16), hexDigit (c.toNat % 16)]
  if c = '"'.toUInt8 ∨ c = '\\'.toUInt8 then ['\\'.toUInt8, c]
  else if isPrint c.toNat then encodeRune c.toNat
  else if c = 7 then "\\a"
  else if c = 8 then "\\b"
  else if c = 12 then "\\f"
  else if c = '\n'.toUInt8 then "\\n"
  else if c = '\r'.toUInt8 then "\\r"
  else if c = '\t'.toUInt8 then "\\t"
  else if c = 11 then "\\v"
  else if c < 0x20 then ("\\x" : GoString) ++ hex
  else ("\\u00" : GoString) ++ hex

/-- `quoteChar`. -/
def quoteChar (c : UInt8) : GoString :=
  if c = '\''.toUInt8 then "'\\''"
  else if c = '"'.toUInt8 then "'\"'"
  else ("'" : GoString) ++ quoteRune c ++ ("'" : GoString)

/-- `SyntaxError`: a message, and the number of bytes read when it was found. -/
structure SyntaxError where
  msg : GoString
  offset : ℕ
  deriving DecidableEq

/-! ### The scanner -/

/-- The codes that the scanner answers with. -/
inductive ScanCode : Type
  | scanContinue
  | scanBeginLiteral
  | scanBeginObject
  | scanObjectKey
  | scanObjectValue
  | scanEndObject
  | scanBeginArray
  | scanArrayValue
  | scanEndArray
  | scanSkipSpace
  | scanEnd
  | scanError
  deriving DecidableEq

/-- The entries of the stack. -/
inductive ParseState : Type
  | parseObjectKey
  | parseObjectValue
  | parseArrayValue
  deriving DecidableEq

/-- The functions that the field `step` holds. `state0` and `state1` are `zero` and
`one`. -/
inductive Step : Type
  | beginValueOrEmpty | beginValue | beginStringOrEmpty | beginString | endValue | endTop
  | inString | inStringEsc | inStringEscU | inStringEscU1 | inStringEscU12 | inStringEscU123
  | neg | one | zero | dot | dot0 | e | eSign | e0
  | t | tr | tru | f | fa | fal | fals | n | nu | nul
  | error | redo
  deriving DecidableEq

/-- `scanner`. -/
structure Scanner where
  step : Step := .beginValue
  endTop : Bool := false
  parseState : List ParseState := []
  err : Option SyntaxError := none
  redo : Bool := false
  redoCode : ScanCode := .scanContinue
  redoState : Step := .beginValue
  bytes : ℕ := 0
  deriving DecidableEq

/-- `isSpace`. -/
def isSpace (c : UInt8) : Prop :=
  c = ' '.toUInt8 ∨ c = '\t'.toUInt8 ∨ c = '\r'.toUInt8 ∨ c = '\n'.toUInt8

instance : DecidablePred isSpace := fun c => by unfold isSpace; infer_instance

/-- A byte from `0` to `9`. -/
def isDecimal (c : UInt8) : Prop := '0'.toUInt8 ≤ c ∧ c ≤ '9'.toUInt8

/-- A byte from `1` to `9`. -/
def isDigit19 (c : UInt8) : Prop := '1'.toUInt8 ≤ c ∧ c ≤ '9'.toUInt8

/-- A hexadecimal digit, in either case. -/
def isHex (c : UInt8) : Prop :=
  isDecimal c ∨ ('a'.toUInt8 ≤ c ∧ c ≤ 'f'.toUInt8) ∨ ('A'.toUInt8 ≤ c ∧ c ≤ 'F'.toUInt8)

/-- A byte that may follow a backslash by itself. -/
def isEscape (c : UInt8) : Prop :=
  c ∈ (['b', 'f', 'n', 'r', 't', '\\', '/', '"'].map Char.toUInt8)

/-- The letter of an exponent. -/
def isExp (c : UInt8) : Prop := c = 'e'.toUInt8 ∨ c = 'E'.toUInt8

/-- The sign of an exponent. -/
def isSign (c : UInt8) : Prop := c = '+'.toUInt8 ∨ c = '-'.toUInt8

instance : DecidablePred isDecimal := fun c => by unfold isDecimal; infer_instance
instance : DecidablePred isDigit19 := fun c => by unfold isDigit19; infer_instance
instance : DecidablePred isHex := fun c => by unfold isHex; infer_instance
instance : DecidablePred isEscape := fun c => by unfold isEscape; infer_instance
instance : DecidablePred isExp := fun c => by unfold isExp; infer_instance
instance : DecidablePred isSign := fun c => by unfold isSign; infer_instance

/-- The brackets of JSON. The braces are spelled by their codes. -/
def beginArray : UInt8 := '['.toUInt8
@[inherit_doc beginArray] def endArray : UInt8 := ']'.toUInt8
@[inherit_doc beginArray] def beginObject : UInt8 := 0x7B
@[inherit_doc beginArray] def endObject : UInt8 := 0x7D

namespace Scanner

/-- `reset`. -/
def reset (s : Scanner) : Scanner :=
  { s with step := .beginValue, parseState := [], err := none, redo := false, endTop := false }

/-- `scanner.error`: records an error and switches to the error state. -/
def error (s : Scanner) (c : UInt8) (context : GoString) : ScanCode × Scanner :=
  (.scanError,
    { s with
      step := .error
      err := some ⟨("invalid character " : GoString) ++ quoteChar c ++ (" " : GoString) ++ context,
        s.bytes⟩ })

/-- The scanner goes on inside a literal. -/
def continueAt (s : Scanner) (step : Step) : ScanCode × Scanner :=
  (.scanContinue, { s with step := step })

/-- `pushParseState`, with the step that comes next. -/
def pushParseState (s : Scanner) (step : Step) (p : ParseState) : Scanner :=
  { s with step := step, parseState := p :: s.parseState }

/-- `popParseState`. -/
def popParseState (s : Scanner) : Scanner :=
  if s.parseState.tail = [] then
    { s with parseState := s.parseState.tail, redo := false, step := .endTop, endTop := true }
  else { s with parseState := s.parseState.tail, redo := false, step := .endValue }

/-- `stateEndTop`. A byte that is no space is complained about on the next call. -/
def stateEndTop (s : Scanner) (c : UInt8) : ScanCode × Scanner :=
  (.scanEnd, if isSpace c then s else (s.error c "after top-level value").2)

/-- `stateEndValue`. -/
def stateEndValue (s : Scanner) (c : UInt8) : ScanCode × Scanner :=
  match s.parseState with
  | [] => ({ s with step := .endTop, endTop := true } : Scanner).stateEndTop c
  | ps :: outer =>
    if isSpace c then (.scanSkipSpace, { s with step := .endValue })
    else
      match ps with
      | .parseObjectKey =>
        if c = ':'.toUInt8 then
          (.scanObjectKey,
            { s with parseState := .parseObjectValue :: outer, step := .beginValue })
        else s.error c "after object key"
      | .parseObjectValue =>
        if c = ','.toUInt8 then
          (.scanObjectValue,
            { s with parseState := .parseObjectKey :: outer, step := .beginString })
        else if c = endObject then (.scanEndObject, s.popParseState)
        else s.error c "after object key:value pair"
      | .parseArrayValue =>
        if c = ','.toUInt8 then (.scanArrayValue, { s with step := .beginValue })
        else if c = endArray then (.scanEndArray, s.popParseState)
        else s.error c "after array element"

/-- `stateBeginValue`. -/
def stateBeginValue (s : Scanner) (c : UInt8) : ScanCode × Scanner :=
  if isSpace c then (.scanSkipSpace, s)
  else if c = beginObject then
    (.scanBeginObject, s.pushParseState .beginStringOrEmpty .parseObjectKey)
  else if c = beginArray then
    (.scanBeginArray, s.pushParseState .beginValueOrEmpty .parseArrayValue)
  else if c = '"'.toUInt8 then (.scanBeginLiteral, { s with step := .inString })
  else if c = '-'.toUInt8 then (.scanBeginLiteral, { s with step := .neg })
  else if c = '0'.toUInt8 then (.scanBeginLiteral, { s with step := .zero })
  else if c = 't'.toUInt8 then (.scanBeginLiteral, { s with step := .t })
  else if c = 'f'.toUInt8 then (.scanBeginLiteral, { s with step := .f })
  else if c = 'n'.toUInt8 then (.scanBeginLiteral, { s with step := .n })
  else if isDigit19 c then (.scanBeginLiteral, { s with step := .one })
  else s.error c "looking for beginning of value"

/-- `stateBeginValueOrEmpty`, the state after reading `[`. -/
def stateBeginValueOrEmpty (s : Scanner) (c : UInt8) : ScanCode × Scanner :=
  if isSpace c then (.scanSkipSpace, s)
  else if c = endArray then s.stateEndValue c
  else s.stateBeginValue c

/-- `stateBeginString`. -/
def stateBeginString (s : Scanner) (c : UInt8) : ScanCode × Scanner :=
  if isSpace c then (.scanSkipSpace, s)
  else if c = '"'.toUInt8 then (.scanBeginLiteral, { s with step := .inString })
  else s.error c "looking for beginning of object key string"

/-- `stateBeginStringOrEmpty`, the state after reading an opening brace. -/
def stateBeginStringOrEmpty (s : Scanner) (c : UInt8) : ScanCode × Scanner :=
  if isSpace c then (.scanSkipSpace, s)
  else if c = endObject then
    ({ s with parseState := .parseObjectValue :: s.parseState.tail } : Scanner).stateEndValue c
  else s.stateBeginString c

/-- `stateInString`. -/
def stateInString (s : Scanner) (c : UInt8) : ScanCode × Scanner :=
  if c = '"'.toUInt8 then s.continueAt .endValue
  else if c = '\\'.toUInt8 then s.continueAt .inStringEsc
  else if c < 0x20 then s.error c "in string literal"
  else (.scanContinue, s)

/-- `stateInStringEsc`. -/
def stateInStringEsc (s : Scanner) (c : UInt8) : ScanCode × Scanner :=
  if isEscape c then s.continueAt .inString
  else if c = 'u'.toUInt8 then s.continueAt .inStringEscU
  else s.error c "in string escape code"

/-- The four states that read a digit of `\u1234`. -/
def stateHex (next : Step) (s : Scanner) (c : UInt8) : ScanCode × Scanner :=
  if isHex c then s.continueAt next
  else s.error c "in \\u hexadecimal character escape"

/-- `stateInStringEscU`. -/
def stateInStringEscU : Scanner → UInt8 → ScanCode × Scanner := stateHex .inStringEscU1

/-- `stateInStringEscU1`. -/
def stateInStringEscU1 : Scanner → UInt8 → ScanCode × Scanner := stateHex .inStringEscU12

/-- `stateInStringEscU12`. -/
def stateInStringEscU12 : Scanner → UInt8 → ScanCode × Scanner := stateHex .inStringEscU123

/-- `stateInStringEscU123`. -/
def stateInStringEscU123 : Scanner → UInt8 → ScanCode × Scanner := stateHex .inString

/-- `stateNeg`. -/
def stateNeg (s : Scanner) (c : UInt8) : ScanCode × Scanner :=
  if c = '0'.toUInt8 then s.continueAt .zero
  else if isDigit19 c then s.continueAt .one
  else s.error c "in numeric literal"

/-- `state0`. -/
def state0 (s : Scanner) (c : UInt8) : ScanCode × Scanner :=
  if c = '.'.toUInt8 then s.continueAt .dot
  else if isExp c then s.continueAt .e
  else s.stateEndValue c

/-- `state1`. -/
def state1 (s : Scanner) (c : UInt8) : ScanCode × Scanner :=
  if isDecimal c then s.continueAt .one
  else s.state0 c

/-- `stateDot`. -/
def stateDot (s : Scanner) (c : UInt8) : ScanCode × Scanner :=
  if isDecimal c then s.continueAt .dot0
  else s.error c "after decimal point in numeric literal"

/-- `stateDot0`. -/
def stateDot0 (s : Scanner) (c : UInt8) : ScanCode × Scanner :=
  if isDecimal c then (.scanContinue, s)
  else if isExp c then s.continueAt .e
  else s.stateEndValue c

/-- `stateESign`. -/
def stateESign (s : Scanner) (c : UInt8) : ScanCode × Scanner :=
  if isDecimal c then s.continueAt .e0
  else s.error c "in exponent of numeric literal"

/-- `stateE`. -/
def stateE (s : Scanner) (c : UInt8) : ScanCode × Scanner :=
  if isSign c then s.continueAt .eSign
  else s.stateESign c

/-- `stateE0`. -/
def stateE0 (s : Scanner) (c : UInt8) : ScanCode × Scanner :=
  if isDecimal c then (.scanContinue, s)
  else s.stateEndValue c

/-- The states that read a letter of `true`, `false` or `null`. -/
def stateLetter (letter : UInt8) (next : Step) (context : GoString) (s : Scanner) (c : UInt8) :
    ScanCode × Scanner :=
  if c = letter then s.continueAt next else s.error c context

/-- `stateT`. -/
def stateT : Scanner → UInt8 → ScanCode × Scanner :=
  stateLetter 'r'.toUInt8 .tr "in literal true (expecting 'r')"

/-- `stateTr`. -/
def stateTr : Scanner → UInt8 → ScanCode × Scanner :=
  stateLetter 'u'.toUInt8 .tru "in literal true (expecting 'u')"

/-- `stateTru`. -/
def stateTru : Scanner → UInt8 → ScanCode × Scanner :=
  stateLetter 'e'.toUInt8 .endValue "in literal true (expecting 'e')"

/-- `stateF`. -/
def stateF : Scanner → UInt8 → ScanCode × Scanner :=
  stateLetter 'a'.toUInt8 .fa "in literal false (expecting 'a')"

/-- `stateFa`. -/
def stateFa : Scanner → UInt8 → ScanCode × Scanner :=
  stateLetter 'l'.toUInt8 .fal "in literal false (expecting 'l')"

/-- `stateFal`. -/
def stateFal : Scanner → UInt8 → ScanCode × Scanner :=
  stateLetter 's'.toUInt8 .fals "in literal false (expecting 's')"

/-- `stateFals`. -/
def stateFals : Scanner → UInt8 → ScanCode × Scanner :=
  stateLetter 'e'.toUInt8 .endValue "in literal false (expecting 'e')"

/-- `stateN`. -/
def stateN : Scanner → UInt8 → ScanCode × Scanner :=
  stateLetter 'u'.toUInt8 .nu "in literal null (expecting 'u')"

/-- `stateNu`. -/
def stateNu : Scanner → UInt8 → ScanCode × Scanner :=
  stateLetter 'l'.toUInt8 .nul "in literal null (expecting 'l')"

/-- `stateNul`. -/
def stateNul : Scanner → UInt8 → ScanCode × Scanner :=
  stateLetter 'l'.toUInt8 .endValue "in literal null (expecting 'l')"

/-- `stateError`. -/
def stateError (s : Scanner) (_c : UInt8) : ScanCode × Scanner := (.scanError, s)

/-- `stateRedo`. -/
def stateRedo (s : Scanner) (_c : UInt8) : ScanCode × Scanner :=
  (s.redoCode, { s with redo := false, step := s.redoState })

/-- `scan.step(scan, c)`: the next byte is taken by the function of the step. -/
def next (s : Scanner) (c : UInt8) : ScanCode × Scanner :=
  match s.step with
  | .beginValueOrEmpty => s.stateBeginValueOrEmpty c
  | .beginValue => s.stateBeginValue c
  | .beginStringOrEmpty => s.stateBeginStringOrEmpty c
  | .beginString => s.stateBeginString c
  | .endValue => s.stateEndValue c
  | .endTop => s.stateEndTop c
  | .inString => s.stateInString c
  | .inStringEsc => s.stateInStringEsc c
  | .inStringEscU => s.stateInStringEscU c
  | .inStringEscU1 => s.stateInStringEscU1 c
  | .inStringEscU12 => s.stateInStringEscU12 c
  | .inStringEscU123 => s.stateInStringEscU123 c
  | .neg => s.stateNeg c
  | .one => s.state1 c
  | .zero => s.state0 c
  | .dot => s.stateDot c
  | .dot0 => s.stateDot0 c
  | .e => s.stateE c
  | .eSign => s.stateESign c
  | .e0 => s.stateE0 c
  | .t => s.stateT c
  | .tr => s.stateTr c
  | .tru => s.stateTru c
  | .f => s.stateF c
  | .fa => s.stateFa c
  | .fal => s.stateFal c
  | .fals => s.stateFals c
  | .n => s.stateN c
  | .nu => s.stateNu c
  | .nul => s.stateNul c
  | .error => s.stateError c
  | .redo => s.stateRedo c

/-- `eof`: the end of the input has been reached. -/
def eof (s : Scanner) : ScanCode × Scanner :=
  if s.err ≠ none then (.scanError, s)
  else if s.endTop then (.scanEnd, s)
  else
    let s := (s.next ' '.toUInt8).2
    if s.endTop then (.scanEnd, s)
    else if s.err = none then
      (.scanError, { s with err := some ⟨"unexpected end of JSON input", s.bytes⟩ })
    else (.scanError, s)

/-- `undo`: the next step of the scanner answers with a code it has answered with
before. It panics when one step is to be undone already. -/
def undo (s : Scanner) (scanCode : ScanCode) : Option Scanner :=
  if s.redo then none
  else some { s with redoCode := scanCode, redoState := s.step, step := .redo, redo := true }

end Scanner

/-! ### Scanners that have found no error -/

/-- The steps of a scanner that has found no error and is not to redo a step. -/
def Step.Live (q : Step) : Prop := q ≠ .error ∧ q ≠ .redo

instance : DecidablePred Step.Live := fun q => by unfold Step.Live; infer_instance

namespace Scanner

/-- The scanner in a step and with a stack, no error found. -/
def goto (s : Scanner) (q : Step) (ps : List ParseState) : Scanner :=
  { s with step := q, parseState := ps, endTop := q = .endTop, err := none, redo := false }

variable (s : Scanner) {q q' : Step} {ps ps' : List ParseState} {c : UInt8}

/-- The scanner after a bracket that closes an array or an object. -/
def close (ps : List ParseState) : Scanner := s.goto (if ps = [] then .endTop else .endValue) ps

theorem goto_with {q' : Step} {ps' : List ParseState} (hq : q ≠ .endTop) (hq' : q' ≠ .endTop) :
    ({ s.goto q ps with parseState := ps', step := q' } : Scanner) = s.goto q' ps' := by
  simp [goto, hq, hq']

theorem popParseState_goto (hq : q ≠ .endTop) (p : ParseState) :
    (s.goto q (p :: ps)).popParseState = s.close ps := by
  unfold popParseState close goto
  cases ps with
  | nil => simp
  | cons p' ps => simp [hq]

section

variable (hq : q ≠ .endTop)

include hq

theorem stateEndValue_space (hc : isSpace c) (p : ParseState) :
    (s.goto q (p :: ps)).stateEndValue c = (.scanSkipSpace, s.goto .endValue (p :: ps)) := by
  have hgoto : ({ s.goto q (p :: ps) with step := .endValue } : Scanner) =
      s.goto .endValue (p :: ps) := goto_with s hq (by decide)
  rw [← hgoto]
  exact if_pos hc

variable (hc : ¬ isSpace c)

include hc

theorem stateEndValue_key :
    (s.goto q (.parseObjectKey :: ps)).stateEndValue c =
      if c = ':'.toUInt8 then (.scanObjectKey, s.goto .beginValue (.parseObjectValue :: ps))
      else (s.goto q (.parseObjectKey :: ps)).error c "after object key" := by
  rw [← goto_with s hq (by decide : Step.beginValue ≠ .endTop)]
  exact if_neg hc

theorem stateEndValue_value :
    (s.goto q (.parseObjectValue :: ps)).stateEndValue c =
      if c = ','.toUInt8 then (.scanObjectValue, s.goto .beginString (.parseObjectKey :: ps))
      else if c = endObject then (.scanEndObject, s.close ps)
      else (s.goto q (.parseObjectValue :: ps)).error c "after object key:value pair" := by
  rw [← goto_with s hq (by decide : Step.beginString ≠ .endTop), ← popParseState_goto s hq]
  exact if_neg hc

theorem stateEndValue_array :
    (s.goto q (.parseArrayValue :: ps)).stateEndValue c =
      if c = ','.toUInt8 then (.scanArrayValue, s.goto .beginValue (.parseArrayValue :: ps))
      else if c = endArray then (.scanEndArray, s.close ps)
      else (s.goto q (.parseArrayValue :: ps)).error c "after array element" := by
  rw [← goto_with s hq (by decide : Step.beginValue ≠ .endTop), ← popParseState_goto s hq]
  exact if_neg hc

end

/-! ### The punctuation of arrays and objects -/

theorem next_arrayComma :
    (s.goto .endValue (.parseArrayValue :: ps)).next ','.toUInt8 =
      (.scanArrayValue, s.goto .beginValue (.parseArrayValue :: ps)) :=
  (stateEndValue_array s (q := .endValue) (by decide) (by decide)).trans (if_pos rfl)

theorem next_objectComma :
    (s.goto .endValue (.parseObjectValue :: ps)).next ','.toUInt8 =
      (.scanObjectValue, s.goto .beginString (.parseObjectKey :: ps)) :=
  (stateEndValue_value s (q := .endValue) (by decide) (by decide)).trans (if_pos rfl)

theorem next_colon :
    (s.goto .endValue (.parseObjectKey :: ps)).next ':'.toUInt8 =
      (.scanObjectKey, s.goto .beginValue (.parseObjectValue :: ps)) :=
  (stateEndValue_key s (q := .endValue) (by decide) (by decide)).trans (if_pos rfl)

theorem next_endArray (hq : q = .endValue ∨ q = .beginValueOrEmpty) :
    (s.goto q (.parseArrayValue :: ps)).next endArray = (.scanEndArray, s.close ps) := by
  rcases hq with rfl | rfl
  · exact (stateEndValue_array s (q := .endValue) (by decide) (by decide)).trans
      ((if_neg (by decide)).trans (if_pos rfl))
  · exact (stateEndValue_array s (q := .beginValueOrEmpty) (by decide) (by decide)).trans
      ((if_neg (by decide)).trans (if_pos rfl))

theorem next_endObject :
    (s.goto .endValue (.parseObjectValue :: ps)).next endObject = (.scanEndObject, s.close ps) :=
  (stateEndValue_value s (q := .endValue) (by decide) (by decide)).trans
    ((if_neg (by decide)).trans (if_pos rfl))

/-- The brace that closes an object without members. -/
theorem next_emptyObject :
    (s.goto .beginStringOrEmpty (.parseObjectKey :: ps)).next endObject =
      (.scanEndObject, s.close ps) :=
  (stateEndValue_value s (q := .beginStringOrEmpty) (by decide) (by decide)).trans
    ((if_neg (by decide)).trans (if_pos rfl))

theorem stateBeginValue_goto (hq : q ≠ .endTop) (c : UInt8) :
    (s.goto q ps).stateBeginValue c =
      if isSpace c then (.scanSkipSpace, s.goto q ps)
      else if c = beginObject then
        (.scanBeginObject, s.goto .beginStringOrEmpty (.parseObjectKey :: ps))
      else if c = beginArray then
        (.scanBeginArray, s.goto .beginValueOrEmpty (.parseArrayValue :: ps))
      else if c = '"'.toUInt8 then (.scanBeginLiteral, s.goto .inString ps)
      else if c = '-'.toUInt8 then (.scanBeginLiteral, s.goto .neg ps)
      else if c = '0'.toUInt8 then (.scanBeginLiteral, s.goto .zero ps)
      else if c = 't'.toUInt8 then (.scanBeginLiteral, s.goto .t ps)
      else if c = 'f'.toUInt8 then (.scanBeginLiteral, s.goto .f ps)
      else if c = 'n'.toUInt8 then (.scanBeginLiteral, s.goto .n ps)
      else if isDigit19 c then (.scanBeginLiteral, s.goto .one ps)
      else (s.goto q ps).error c "looking for beginning of value" := by
  simp [stateBeginValue, pushParseState, goto, hq]

theorem next_beginArray :
    (s.goto .beginValue ps).next beginArray =
      (.scanBeginArray, s.goto .beginValueOrEmpty (.parseArrayValue :: ps)) :=
  (stateBeginValue_goto s (q := .beginValue) (by decide) _).trans rfl

theorem next_beginObject :
    (s.goto .beginValue ps).next beginObject =
      (.scanBeginObject, s.goto .beginStringOrEmpty (.parseObjectKey :: ps)) :=
  (stateBeginValue_goto s (q := .beginValue) (by decide) _).trans rfl

end Scanner

/-! ### Checking a text -/

/-- The loop of `checkValid`, and what comes after it. -/
def checkLoop (scan : Scanner) : GoString → Option SyntaxError
  | [] =>
    match scan.eof with
    | (.scanError, scan) => scan.err
    | _ => none
  | c :: data =>
    match ({ scan with bytes := scan.bytes + 1 } : Scanner).next c with
    | (.scanError, scan) => scan.err
    | (_, scan) => checkLoop scan data

/-- `checkValid`: the error in a text, or none when it is JSON. -/
def checkValid (data : GoString) (scan : Scanner) : Option SyntaxError :=
  checkLoop scan.reset data

example : checkValid "[1, -2.5e+3, \"a\\u0041\"] " {} = none := by decide

example : checkValid "[1\x7d" {} =
    some ⟨"invalid character '\x7d' after array element", 3⟩ := by decide

theorem checkLoop_nil (s : Scanner) :
    checkLoop s [] = if s.eof.1 = .scanError then s.eof.2.err else none := by
  rw [checkLoop]
  split
  · next heq => rw [if_pos (congrArg Prod.fst heq), heq]
  · next hne => rw [if_neg fun hop => hne s.eof.2 (Prod.ext hop rfl)]

theorem checkLoop_cons (s : Scanner) (c : UInt8) (w : GoString) :
    checkLoop s (c :: w) =
      let r := ({ s with bytes := s.bytes + 1 } : Scanner).next c
      if r.1 = .scanError then r.2.err else checkLoop r.2 w := by
  rw [checkLoop]
  simp only
  split
  · next heq => rw [if_pos (congrArg Prod.fst heq), heq]
  · next hne heq =>
    rw [heq, if_neg hne]

/-- An end of the text that is an error leaves an error behind. -/
theorem Scanner.err_eof (s : Scanner) (h : s.eof.1 = .scanError) : s.eof.2.err ≠ none := by
  unfold eof at h ⊢
  simp only at h ⊢
  split_ifs at h ⊢ with herr hend hnext hnone
  · exact herr
  · exact Option.some_ne_none _
  · exact hnone

end PluginsDatastore
