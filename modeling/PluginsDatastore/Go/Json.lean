import Mathlib.Algebra.GroupWithZero.Nat
import PluginsDatastore.Go.Text

/-!
# `encoding/json`

The part of `encoding/json` that the responses use: strings, with the escapes
that keep a string safe inside HTML and JavaScript, objects with string members,
arrays, and `null` for a nil slice or a nil interface.
-/

namespace PluginsDatastore

/-- The digit of a number below sixteen: the table `hex`. -/
def hexDigit (n : ℕ) : UInt8 :=
  if n < 10 then (48 + n).toUInt8 else (87 + n).toUInt8

/-- What `encodeState.string` writes for a byte below `utf8.RuneSelf`. -/
def escapeByte (b : UInt8) : GoString :=
  if 0x20 ≤ b ∧ b ≠ '\\'.toUInt8 ∧ b ≠ '"'.toUInt8 ∧ b ≠ '<'.toUInt8 ∧ b ≠ '>'.toUInt8 ∧
      b ≠ '&'.toUInt8 then [b]
  else if b = '\\'.toUInt8 ∨ b = '"'.toUInt8 then ['\\'.toUInt8, b]
  else if b = '\n'.toUInt8 then "\\n"
  else if b = '\r'.toUInt8 then "\\r"
  else if b = '\t'.toUInt8 then "\\t"
  else ("\\u00" : GoString) ++ [hexDigit (b.toNat / 16), hexDigit (b.toNat % 16)]

/-- The loop of `encodeState.string`. Every round consumes at least one byte, so
the length of the string bounds the number of rounds. -/
def encodeStringLoop : ℕ → GoString → GoString
  | 0, _ => []
  | _ + 1, [] => []
  | n + 1, b :: s =>
    if b < 0x80 then escapeByte b ++ encodeStringLoop n s
    else
      let (c, size) := decodeRune (b :: s)
      let rest := encodeStringLoop n ((b :: s).drop size)
      -- bytes that are not UTF-8
      if c = runeError ∧ size = 1 then ("\\ufffd" : GoString) ++ rest
      -- the line and paragraph separators, which JavaScript takes for newlines
      else if c = 0x2028 ∨ c = 0x2029 then ("\\u202" : GoString) ++ [hexDigit (c % 16)] ++ rest
      else (b :: s).take size ++ rest

/-- `encodeState.string`: a quoted string. -/
def encodeString (s : GoString) : GoString :=
  ("\"" : GoString) ++ encodeStringLoop s.length s ++ "\""

/-- `structEncoder.encode`, of a struct whose fields are strings, given with
their names in the order of declaration. The braces of an object are spelled by
their codes. -/
def encodeStruct (fields : List (GoString × GoString)) : GoString :=
  ("\x7b" : GoString)
    ++ List.intercalate "," (fields.map fun f =>
      encodeString f.1 ++ (":" : GoString) ++ encodeString f.2)
    ++ ("\x7d" : GoString)

/-- `sliceEncoder.encode`, with the encoder of the elements. -/
def encodeSlice {α : Type} (elemEnc : α → GoString) : Slice α → GoString
  | .nil => "null"
  | .of l => ("[" : GoString) ++ List.intercalate "," (l.map elemEnc) ++ ("]" : GoString)

example : encodeString "a<b\n\"" = "\"a\\u003cb\\n\\\"\"" := by decide

theorem length_intercalate (sep : GoString) (l : List GoString) :
    (List.intercalate sep l).length = (l.map List.length).sum + sep.length * (l.length - 1) := by
  induction l with
  | nil => rfl
  | cons x l ih =>
    cases l with
    | nil => simp [List.intercalate]
    | cons y l =>
      -- one more element, and one more separator before it
      have hcons : List.intercalate sep (x :: y :: l) =
          x ++ (sep ++ List.intercalate sep (y :: l)) := by
        simp [List.intercalate]
      rw [hcons, List.length_append, List.length_append, ih]
      simp only [List.map_cons, List.sum_cons, List.length_cons, Nat.add_sub_cancel, Nat.mul_add,
        Nat.mul_one]
      omega

/-- A list is told from a longer one by its JSON. -/
theorem encodeSlice_append_ne {α : Type} {elemEnc : α → GoString} {l l' : List α}
    (hne : ∀ x, elemEnc x ≠ []) (hl' : l' ≠ []) :
    encodeSlice elemEnc (.of (l ++ l')) ≠ encodeSlice elemEnc (.of l) := by
  intro heq
  -- the longer list has the longer encoding
  have hlen := congrArg List.length heq
  have hsum : 0 < ((l'.map elemEnc).map List.length).sum := by
    obtain ⟨x, l'', rfl⟩ := List.exists_cons_of_ne_nil hl'
    have hx := List.length_pos_iff.mpr (hne x)
    rw [List.map_cons, List.map_cons, List.sum_cons]
    omega
  have hsep : (("," : String) : GoString).length * ((l.map elemEnc).length - 1) ≤
      (("," : String) : GoString).length * ((l.map elemEnc ++ l'.map elemEnc).length - 1) := by
    refine Nat.mul_le_mul_left _ ?_
    rw [List.length_append]
    omega
  simp only [encodeSlice, List.length_append, length_intercalate, List.map_append,
    List.sum_append] at hlen hsep
  omega

end PluginsDatastore
