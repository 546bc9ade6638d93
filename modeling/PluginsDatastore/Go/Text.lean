import Mathlib.Data.List.Basic
import Mathlib.Tactic.Common

/-!
# Go strings, runes and slices

The values of the standard library that the handlers work with. A Go string is a
sequence of bytes and need not be valid UTF-8, so `GoString` is a list of bytes
and a string literal of the program text is read as its UTF-8 bytes. Runes are
decoded from such a sequence as `unicode/utf8` does, an invalid byte counting as
the error rune of width one.
-/

namespace PluginsDatastore

/-- A Go string: a sequence of bytes. -/
abbrev GoString : Type := List UInt8

/-- The bytes of a string literal. -/
@[coe] def GoString.lit (s : String) : GoString := s.toUTF8.data.toList

instance : Coe String GoString := ⟨GoString.lit⟩

/-! ### The parts of package `strings` used by the datastore package -/

/-- `strings.TrimRight`: without the trailing bytes that are in the cutset. -/
def trimRight (s cutset : GoString) : GoString :=
  (s.reverse.dropWhile (· ∈ cutset)).reverse

/-- `strings.TrimSpace`, for a text of ASCII bytes. -/
def trimSpace (s : GoString) : GoString :=
  let space : GoString := "\t\n\x0b\x0c\r "
  trimRight (s.dropWhile (· ∈ space)) space

/-! ### Runes -/

/-- `utf8.RuneError`, the rune that stands for an invalid encoding. -/
def runeError : ℕ := 0xFFFD

/-- The length of the encoding a lead byte announces and the range its second
byte must be in, or `none` for a byte that leads no encoding of two bytes or
more: the table `first` of `utf8.go` with its `acceptRanges`. -/
def leadByte (b : UInt8) : Option (ℕ × UInt8 × UInt8) :=
  if 0xC2 ≤ b ∧ b ≤ 0xDF then some (2, 0x80, 0xBF)
  else if b = 0xE0 then some (3, 0xA0, 0xBF)
  else if b = 0xED then some (3, 0x80, 0x9F)
  else if 0xE1 ≤ b ∧ b ≤ 0xEF then some (3, 0x80, 0xBF)
  else if b = 0xF0 then some (4, 0x90, 0xBF)
  else if 0xF1 ≤ b ∧ b ≤ 0xF3 then some (4, 0x80, 0xBF)
  else if b = 0xF4 then some (4, 0x80, 0x8F)
  else none

/-- The payload of a continuation byte. -/
def continuation (b : UInt8) : ℕ := b.toNat % 64

/-- `utf8.DecodeRuneInString`: the first rune of a string and its width. -/
def decodeRune (s : GoString) : ℕ × ℕ :=
  match s with
  | [] => (runeError, 0)
  | s0 :: rest =>
    if s0 < 0x80 then (s0.toNat, 1)
    else
      match leadByte s0 with
      | none => (runeError, 1)
      | some (sz, lo, hi) =>
        match sz, rest with
        | 2, s1 :: _ =>
          if s1 < lo ∨ hi < s1 then (runeError, 1)
          else (s0.toNat % 32 * 64 + continuation s1, 2)
        | 3, s1 :: s2 :: _ =>
          if s1 < lo ∨ hi < s1 then (runeError, 1)
          else if s2 < 0x80 ∨ 0xBF < s2 then (runeError, 1)
          else (s0.toNat % 16 * 4096 + continuation s1 * 64 + continuation s2, 3)
        | 4, s1 :: s2 :: s3 :: _ =>
          if s1 < lo ∨ hi < s1 then (runeError, 1)
          else if s2 < 0x80 ∨ 0xBF < s2 then (runeError, 1)
          else if s3 < 0x80 ∨ 0xBF < s3 then (runeError, 1)
          else (s0.toNat % 8 * 262144 + continuation s1 * 4096 + continuation s2 * 64
            + continuation s3, 4)
        | _, _ => (runeError, 1)

/-- `utf8.EncodeRune`, on the runes that `decodeRune` yields. -/
def encodeRune (r : ℕ) : GoString :=
  let r := if 0x10FFFF < r ∨ (0xD800 ≤ r ∧ r ≤ 0xDFFF) then runeError else r
  if r ≤ 0x7F then [r.toUInt8]
  else if r ≤ 0x7FF then [(0xC0 + r / 64).toUInt8, (0x80 + r % 64).toUInt8]
  else if r ≤ 0xFFFF then
    [(0xE0 + r / 4096).toUInt8, (0x80 + r / 64 % 64).toUInt8, (0x80 + r % 64).toUInt8]
  else
    [(0xF0 + r / 262144).toUInt8, (0x80 + r / 4096 % 64).toUInt8, (0x80 + r / 64 % 64).toUInt8,
      (0x80 + r % 64).toUInt8]

theorem decodeRune_of_lt {b : UInt8} (hb : b < 0x80) (s : GoString) :
    decodeRune (b :: s) = (b.toNat, 1) := by
  rw [decodeRune, if_pos hb]

/-- The bytes that may follow a lead byte, and the payload of the lead byte itself, rule
out an encoding that is longer than it has to be. -/
theorem leadByte_spec {b lo hi : UInt8} {sz : ℕ} (h : leadByte b = some (sz, lo, hi)) :
    0x80 ≤ lo.toNat ∧ hi.toNat ≤ 0xBF ∧
      ((sz = 2 ∧ 2 ≤ b.toNat % 32) ∨ (sz = 3 ∧ (0xA0 ≤ lo.toNat ∨ 1 ≤ b.toNat % 16)) ∨
        (sz = 4 ∧ (0x90 ≤ lo.toNat ∨ 1 ≤ b.toNat % 8))) := by
  simp only [leadByte, UInt8.le_iff_toNat_le, ← UInt8.toNat_inj, UInt8.reduceToNat] at h
  -- the rows of the table
  split_ifs at h <;> simp only [Option.some.injEq, Prod.mk.injEq] at h <;>
    obtain ⟨rfl, rfl, rfl⟩ := h <;> simp <;> omega

/-- A rune that is not ASCII is decoded from bytes that are not. -/
theorem decodeRune_of_le {b : UInt8} (hb : 0x80 ≤ b) (s : GoString) :
    0x80 ≤ (decodeRune (b :: s)).1 ∧
      ∀ x ∈ (b :: s).take (decodeRune (b :: s)).2, 0x80 ≤ x := by
  have hlt : ¬ b < 0x80 := by simpa using hb
  have herr : 0x80 ≤ runeError ∧ ∀ x ∈ (b :: s).take 1, 0x80 ≤ x := by simp [runeError, hb]
  rw [decodeRune]
  simp only [if_neg hlt]
  split
  · exact herr
  · next sz lo hi hlead =>
    obtain ⟨hlo, hhi, hsz⟩ := leadByte_spec hlead
    simp only [UInt8.le_iff_toNat_le, UInt8.lt_iff_toNat_lt, UInt8.reduceToNat] at *
    split
    · -- two bytes
      split_ifs
      · exact herr
      · refine ⟨?_, ?_⟩
        · simp only [continuation]
          omega
        · simp
          omega
    · -- three bytes
      split_ifs
      · exact herr
      · exact herr
      · refine ⟨?_, ?_⟩
        · simp only [continuation]
          omega
        · simp
          omega
    · -- four bytes
      split_ifs
      · exact herr
      · exact herr
      · exact herr
      · refine ⟨?_, ?_⟩
        · simp only [continuation]
          omega
        · simp
          omega
    · -- the string ends before the encoding does
      exact herr

theorem encodeRune_of_lt {b : UInt8} (hb : b < 0x80) : encodeRune b.toNat = [b] := by
  simp only [UInt8.lt_iff_toNat_lt, UInt8.reduceToNat] at hb
  have hr : ¬ (0x10FFFF < b.toNat ∨ (0xD800 ≤ b.toNat ∧ b.toNat ≤ 0xDFFF)) := by omega
  simp only [encodeRune, if_neg hr, if_pos (Nat.le_of_lt_succ hb)]
  simp

/-- A rune that is not ASCII is encoded in bytes that are not. -/
theorem encodeRune_of_le {r : ℕ} (hr : 0x80 ≤ r) : ∀ x ∈ encodeRune r, 0x80 ≤ x := by
  unfold encodeRune
  simp only
  generalize hr' : (if 0x10FFFF < r ∨ (0xD800 ≤ r ∧ r ≤ 0xDFFF) then runeError else r) = r'
  have hle : 0x80 ≤ r' ∧ r' ≤ 0x10FFFF := by
    rw [← hr']
    split_ifs
    · decide
    · omega
  simp only [UInt8.le_iff_toNat_le, UInt8.reduceToNat]
  -- one encoding for each length
  split_ifs <;> simp <;> omega

/-! ### Slices -/

/-- A Go slice as its readers see it: the nil slice, or the elements of a slice
that is not nil, possibly none. -/
inductive Slice (α : Type) : Type
  | nil
  | of (elems : List α)
  deriving DecidableEq

namespace Slice

variable {α : Type}

/-- The elements of a slice. The nil slice has none. -/
def elems : Slice α → List α
  | nil => []
  | of l => l

/-- `append(s, x)`. -/
def append (s : Slice α) (x : α) : Slice α := of (s.elems ++ [x])

@[simp] theorem elems_of (l : List α) : (of l).elems = l := rfl

@[simp] theorem append_of (l : List α) (x : α) : (of l).append x = of (l ++ [x]) := rfl

end Slice

end PluginsDatastore
