import PluginsDatastore.Go.Unquote

/-!
# Decoding of JSON

`Unmarshal` into a variable of the type `interface{}`: the text is checked, and then
decoded by functions that follow the scanner along. `scanWhile` feeds it bytes until it
answers with another code, and `undo` gives the last one back.

Numbers become values of a type `F` by `parseFloat`, which stands for the conversion of
`strconv` to `float64` and may fail for a number that is too large. Such a failure is
saved, and decoding goes on.

The decoder panics when it is out of step with the scanner. The functions that call
each other are given a bound on their calls, which `unmarshal` chooses.
-/

namespace PluginsDatastore

/-- What a value of the type `interface{}` can be after decoding. The entries of a map
are in no order. -/
inductive Interface (F : Type) : Type
  | nil
  | bool (b : Bool)
  | number (f : F)
  | string (s : GoString)
  | slice (elems : List (Interface F))
  | map (entries : List (GoString × Interface F))

/-- `m[key] = v`. -/
def setKey {α : Type} (m : List (GoString × α)) (key : GoString) (v : α) : List (GoString × α) :=
  (key, v) :: m.filter (·.1 ≠ key)

/-- `UnmarshalTypeError`, for the type `float64`. -/
structure UnmarshalTypeError where
  value : GoString
  offset : ℕ
  deriving DecidableEq

/-- `decodeState`. -/
structure DecodeState where
  data : GoString
  off : ℕ := 0
  scan : Scanner := {}
  savedError : Option UnmarshalTypeError := none
  deriving DecidableEq

/-- The panics of the decoder, and the bound on its calls. -/
inductive DecodeFault : Type
  | errPhase
  | invalidUndo
  | indexOutOfRange
  | outOfFuel
  deriving DecidableEq

/-- A function of the decoder. -/
abbrev Decode (α : Type) : Type := StateT DecodeState (Except DecodeFault) α

namespace Decode

/-- A panic. -/
def fail {α : Type} (fault : DecodeFault) : Decode α := fun _ => .error fault

/-- The loop of `scanWhile`, through the bytes that are left. The end of the data counts
as one more byte. -/
def scanWhileLoop (op : ScanCode) (len : ℕ) : GoString → ℕ → Scanner → ScanCode × ℕ × Scanner
  | [], _, scan => (scan.eof.1, len + 1, scan.eof.2)
  | c :: rest, off, scan =>
    let r := scan.next c
    if r.1 ≠ op then (r.1, off + 1, r.2) else scanWhileLoop op len rest (off + 1) r.2

/-- `scanWhile`. -/
def scanWhile (op : ScanCode) : Decode ScanCode := fun d =>
  let r := scanWhileLoop op d.data.length (d.data.drop d.off) d.off d.scan
  .ok (r.1, { d with off := r.2.1, scan := r.2.2 })

/-- `d.off--` and `d.scan.undo(op)`. -/
def undo (op : ScanCode) : Decode Unit := fun d =>
  match d.scan.undo op with
  | none => .error .invalidUndo
  | some scan => .ok ((), { d with off := d.off - 1, scan := scan })

/-- `saveError`: only the first error is kept. -/
def saveError (err : UnmarshalTypeError) : Decode Unit := fun d =>
  .ok ((), { d with savedError := some (d.savedError.getD err) })

section

variable {F : Type} (parseFloat : GoString → Option F)

/-- `convertNumber`, and what its callers do with its error. -/
def convertNumber (s : GoString) : Decode (Interface F) := fun d =>
  match parseFloat s with
  | some f => .ok (.number f, d)
  | none =>
    (do
      saveError ⟨("number " : GoString) ++ s, d.off⟩
      return Interface.nil) d

/-- The value of a literal, by its first byte. -/
def literalValue (item : GoString) : Decode (Interface F) :=
  match item.head? with
  | none => fail .indexOutOfRange
  | some c =>
    if c = 'n'.toUInt8 then return .nil
    else if c = 't'.toUInt8 ∨ c = 'f'.toUInt8 then return .bool (c = 't'.toUInt8)
    else if c = '"'.toUInt8 then
      match unquoteBytes item with
      | none => fail .errPhase
      | some s => return .string s
    else if c ≠ '-'.toUInt8 ∧ ¬ isDecimal c then fail .errPhase
    else convertNumber parseFloat item

/-- `literalInterface`. -/
def literalInterface : Decode (Interface F) := do
  let start := (← get).off - 1
  let op ← scanWhile .scanContinue
  -- scan read one byte too far
  undo op
  let d ← get
  literalValue parseFloat ((d.data.take d.off).drop start)

mutual

/-- `valueInterface`. -/
def valueInterface : ℕ → Decode (Interface F)
  | 0 => fail .outOfFuel
  | n + 1 => do
    match ← scanWhile .scanSkipSpace with
    | .scanBeginArray => arrayInterface n []
    | .scanBeginObject => objectInterface n []
    | .scanBeginLiteral => literalInterface parseFloat
    | _ => fail .errPhase

/-- The loop of `arrayInterface`, with the elements decoded so far. -/
def arrayInterface : ℕ → List (Interface F) → Decode (Interface F)
  | 0, _ => fail .outOfFuel
  | n + 1, v => do
    -- look ahead for a bracket, which can only come in the first round
    let op ← scanWhile .scanSkipSpace
    if op = .scanEndArray then return .slice v
    else
      undo op
      let x ← valueInterface n
      let op ← scanWhile .scanSkipSpace
      if op = .scanEndArray then return .slice (v ++ [x])
      else if op ≠ .scanArrayValue then fail .errPhase
      else arrayInterface n (v ++ [x])

/-- The loop of `objectInterface`, with the map decoded so far. -/
def objectInterface : ℕ → List (GoString × Interface F) → Decode (Interface F)
  | 0, _ => fail .outOfFuel
  | n + 1, m => do
    -- the opening quote of a key or the closing brace
    let op ← scanWhile .scanSkipSpace
    if op = .scanEndObject then return .map m
    else if op ≠ .scanBeginLiteral then fail .errPhase
    else
      let start := (← get).off - 1
      let op ← scanWhile .scanContinue
      let d ← get
      match unquoteBytes ((d.data.take (d.off - 1)).drop start) with
      | none => fail .errPhase
      | some key =>
        -- the colon before the value
        let op ← if op = .scanSkipSpace then scanWhile .scanSkipSpace else pure op
        if op ≠ .scanObjectKey then fail .errPhase
        else
          let x ← valueInterface n
          let op ← scanWhile .scanSkipSpace
          if op = .scanEndObject then return .map (setKey m key x)
          else if op ≠ .scanObjectValue then fail .errPhase
          else objectInterface n (setKey m key x)

end

end

end Decode

/-- What `Unmarshal` ends in: a syntax error, a panic, or a value and the error that was
saved on the way. -/
inductive Unmarshaled (F : Type) : Type
  | syntaxError (err : SyntaxError)
  | fault (fault : DecodeFault)
  | done (v : Interface F) (err : Option UnmarshalTypeError)

/-- `Unmarshal`, into a variable of the type `interface{}` that is nil. What `array`,
`object` and `literal` store into such a variable is what `arrayInterface`,
`objectInterface` and `literalInterface` return. -/
def unmarshal {F : Type} (parseFloat : GoString → Option F) (data : GoString) : Unmarshaled F :=
  match checkValid data {} with
  | some err => .syntaxError err
  | none =>
    let d : DecodeState := { data := data, scan := ({ bytes := data.length } : Scanner).reset }
    match Decode.valueInterface parseFloat (2 * data.length) d with
    | .error fault => .fault fault
    | .ok (v, d) => .done v d.savedError

end PluginsDatastore
