import PluginsDatastore.Go.Text

/-!
# `fmt.Fprintf` with no operands

`doPrintf` of `fmt/print.go`, for a call that passes a format and no operands.
The bytes of the format are copied up to a `%`, which starts a directive: flags,
an argument index in brackets, a width, a precision, another index, and a verb.
With no operands every index is out of range and every `*` is a bad width or
precision, and the verb is reported as missing its operand, unless it is a
second `%`, which is written as it is.
-/

namespace PluginsDatastore

/-- A decimal digit. -/
def isDigit (b : UInt8) : Bool := '0'.toUInt8 ≤ b && b ≤ '9'.toUInt8

/-- `tooLarge`, of the non-negative numbers that `parsenum` builds. -/
def tooLarge (x : ℕ) : Bool := 1000000 < x

/-- `parsenum`: the number at the front of a text, whether there is one, and the
text after it. A number that grows too large is dropped with all that follows. -/
def parsenum (num : ℕ) (isnum : Bool) : GoString → ℕ × Bool × GoString
  | [] => (num, isnum, [])
  | b :: s =>
    if isDigit b then
      -- an overflow returns the end of the text as the new position
      if tooLarge num then (0, false, [])
      else parsenum (num * 10 + (b - '0'.toUInt8).toNat) true s
    else (num, isnum, b :: s)

/-- `parseArgNumber`, of a text that starts with `[`: the number of bytes to
consume and whether the brackets hold a number. -/
def parseArgNumber (s : GoString) : ℕ × Bool :=
  if s.length < 3 then (1, false)
  else
    match s.tail.idxOf? ']'.toUInt8 with
    | none => (1, false)
    | some n =>
      -- the brackets and what is between them are skipped even when it is no number
      let (_, isnum, rest) := parsenum 0 false (s.tail.take n)
      (n + 2, isnum && rest.isEmpty)

/-- `argNumber`, when there is no operand to point at: the text after an index
in brackets, whether there was one, and whether all indices so far were good. -/
def argNumber (goodArgNum : Bool) (s : GoString) : GoString × Bool × Bool :=
  match s with
  | [] => (s, false, goodArgNum)
  | b :: _ =>
    if b = '['.toUInt8 then
      let (wid, ok) := parseArgNumber s
      -- no index is in range
      (s.drop wid, ok, false)
    else (s, false, goodArgNum)

/-- The flag characters of a directive. -/
def isFlag (b : UInt8) : Bool := b ∈ ("#0+- " : GoString)

/-- The width of a directive, with no operand for a `*`: what is written, the
text after it, whether an index came last, and whether all indices were good. -/
def width (afterIndex goodArgNum : Bool) (s : GoString) : GoString × GoString × Bool × Bool :=
  match s with
  | [] => ("", s, afterIndex, goodArgNum)
  | b :: rest =>
    if b = '*'.toUInt8 then ("%!(BADWIDTH)", rest, false, goodArgNum)
    else
      -- an index before a literal width is a bad one: "%[3]2d"
      let (_, widPresent, rest) := parsenum 0 false s
      ("", rest, afterIndex, goodArgNum && !(afterIndex && widPresent))

/-- The precision of a directive, with no operand for a `*`. A `.` at the very
end of the format starts none. -/
def precision (afterIndex goodArgNum : Bool) (s : GoString) :
    GoString × GoString × Bool × Bool :=
  match s with
  | b :: c :: rest =>
    if b = '.'.toUInt8 then
      -- and so is one before a precision: "%[3].2d"
      let (s, afterIndex, goodArgNum) := argNumber (goodArgNum && !afterIndex) (c :: rest)
      match s with
      | [] => ("", s, afterIndex, goodArgNum)
      | d :: rest =>
        if d = '*'.toUInt8 then ("%!(BADPREC)", rest, false, goodArgNum)
        else
          let (_, _, rest) := parsenum 0 false s
          ("", rest, afterIndex, goodArgNum)
    else ("", s, afterIndex, goodArgNum)
  | _ => ("", s, afterIndex, goodArgNum)

/-- The verb of a directive: what is written for it and the text after it. -/
def verb (goodArgNum : Bool) (s : GoString) : GoString × GoString :=
  match s with
  | [] => ("%!(NOVERB)", [])
  | _ :: _ =>
    let (c, w) := decodeRune s
    let rest := s.drop w
    if c = '%'.toNat then ("%", rest) -- a literal percent sign takes no operand
    else if goodArgNum then (("%!" : GoString) ++ encodeRune c ++ "(MISSING)", rest)
    else (("%!" : GoString) ++ encodeRune c ++ "(BADINDEX)", rest)

/-- One directive, from the byte after its `%`: what is written for it and the
text after it. -/
def directive (s : GoString) : GoString × GoString :=
  let s := s.dropWhile isFlag
  let (s, afterIndex, goodArgNum) := argNumber true s
  let (out₁, s, afterIndex, goodArgNum) := width afterIndex goodArgNum s
  let (out₂, s, afterIndex, goodArgNum) := precision afterIndex goodArgNum s
  let (s, _, goodArgNum) := if afterIndex then (s, true, goodArgNum) else argNumber goodArgNum s
  let (out₃, s) := verb goodArgNum s
  (out₁ ++ out₂ ++ out₃, s)

/-- The loop of `doPrintf`. Every round consumes at least the `%` it stops at, so
the length of the format bounds the number of rounds. -/
def doPrintfLoop : ℕ → GoString → GoString
  | 0, format => format
  | n + 1, format =>
    let text := format.takeWhile (· ≠ '%'.toUInt8)
    match format.dropWhile (· ≠ '%'.toUInt8) with
    | [] => text
    | _ :: s =>
      let (out, rest) := directive s
      text ++ out ++ doPrintfLoop n rest

/-- `doPrintf(format, nil)`: what `Fprintf(w, format)` writes. -/
def doPrintf (format : GoString) : GoString := doPrintfLoop format.length format

example : doPrintf "cb(" = "cb(" := by decide

example : doPrintf "100%(" = "100%!((MISSING)" := by decide

end PluginsDatastore
