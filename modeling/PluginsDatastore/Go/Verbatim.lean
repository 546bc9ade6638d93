import Mathlib.Algebra.BigOperators.Group.List.Basic
import Mathlib.Algebra.Order.Ring.Int
import Mathlib.Algebra.Order.Monoid.Prod
import Mathlib.Data.List.TakeWhile
import PluginsDatastore.Go.Printf

/-!
# Formats that are written as they are

`Fprintf` with no operands writes a format as it is exactly when there is no `%` in
it (`doPrintf_eq_self_iff`). One directive does not show that: `%%` is shortened to `%`
while other directives grow, and what is lost at one could come back at another. So the
argument is about the bytes of the whole text.

Flags, indexes, widths and precisions start with bytes that they read and do not write:
the swallowed bytes. A directive without any of these pieces is a `%` and a verb, and
what is written for the verb has the bytes of the verb, neutral ones, and a `!` for every
`%`. The rank of a text is the number of swallowed bytes in it and then, in the
lexicographic order, the number of `%` less that of `!`. It is additive, every piece of a
directive writes at most the rank that it reads, and the `%` that a directive starts with
makes the difference.
-/

namespace PluginsDatastore

/-- The bytes that flags, indexes, widths and precisions start with. -/
def isSwallowed (b : UInt8) : Bool := isFlag b || isDigit b || b ∈ ("[*." : GoString)

/-- The rank of one byte. -/
def byteRank (b : UInt8) : ℤ ×ₗ ℤ :=
  if isSwallowed b then toLex (1, 0)
  else if b = '%'.toUInt8 then toLex (0, 1)
  else if b = '!'.toUInt8 then toLex (0, -1)
  else 0

/-- The rank of a text. -/
def rank (s : GoString) : ℤ ×ₗ ℤ := (s.map byteRank).sum

theorem rank_cons (b : UInt8) (s : GoString) : rank (b :: s) = byteRank b + rank s :=
  List.sum_cons

theorem rank_append (s t : GoString) : rank (s ++ t) = rank s + rank t := by
  unfold rank
  rw [List.map_append, List.sum_append]

/-- Bytes that are not ASCII have no rank. -/
theorem byteRank_of_le {b : UInt8} (hb : 0x80 ≤ b) : byteRank b = 0 := by
  have hne : ∀ x : UInt8, x < 0x80 → b ≠ x := by
    intro x hx heq
    exact absurd (heq ▸ hb) (by simpa using hx)
  have hdigit : isDigit b = false := by
    have hnine : ¬ b ≤ '9'.toUInt8 := fun h => absurd (UInt8.le_trans hb h) (by decide)
    simp [isDigit, hnine]
  have hflags : (("#0+- " : String) : GoString) = [35, 48, 43, 45, 32] := rfl
  have hmarks : (("[*." : String) : GoString) = [91, 42, 46] := rfl
  have hswallowed : isSwallowed b = false := by
    simp [isSwallowed, isFlag, hdigit, hflags, hmarks, hne]
  rw [byteRank, if_neg (by simp [hswallowed]), if_neg (hne _ (by decide)),
    if_neg (hne _ (by decide))]

theorem rank_of_le {s : GoString} (h : ∀ b ∈ s, 0x80 ≤ b) : rank s = 0 := by
  refine List.sum_eq_zero ?_
  intro x hx
  obtain ⟨b, hb, rfl⟩ := List.mem_map.mp hx
  exact byteRank_of_le (h b hb)

/-- The first component is a number of bytes. -/
theorem fst_rank_nonneg (s : GoString) : 0 ≤ (ofLex (rank s)).1 := by
  induction s with
  | nil => exact le_rfl
  | cons b s ih =>
    have hb : 0 ≤ (ofLex (byteRank b)).1 := by
      unfold byteRank
      split_ifs <;> decide
    rw [rank_cons]
    exact add_nonneg hb ih

theorem rank_nonneg_of_isSwallowed {b : UInt8} (hb : isSwallowed b = true) (s : GoString) :
    0 ≤ rank (b :: s) := by
  -- the first component is positive
  have hs := fst_rank_nonneg s
  have hfst : (ofLex (rank (b :: s))).1 = 1 + (ofLex (rank s)).1 := by
    rw [rank_cons, byteRank, if_pos hb]
    rfl
  refine le_of_lt (Prod.Lex.lt_iff.mpr (.inl ?_))
  rw [hfst]
  exact Int.lt_add_one_iff.mpr hs |>.trans_eq (add_comm _ _)

/-- Reading on from a swallowed byte, by whatever distance, does not raise the rank. -/
theorem rank_drop_le {b : UInt8} (hb : isSwallowed b = true) (s : GoString) (n : ℕ) :
    rank (s.drop n) ≤ rank (b :: s) := by
  calc rank (s.drop n)
      ≤ rank (b :: s.take n) + rank (s.drop n) :=
        le_add_of_nonneg_left (rank_nonneg_of_isSwallowed hb _)
    _ = rank (b :: s) := by rw [← rank_append, List.cons_append, List.take_append_drop]

theorem rank_le_cons {b : UInt8} (hb : isSwallowed b = true) (s : GoString) :
    rank s ≤ rank (b :: s) :=
  rank_drop_le hb s 0

/-! ### The pieces of a directive -/

theorem isSwallowed_of_isFlag {b : UInt8} (h : isFlag b = true) : isSwallowed b = true := by
  simp [isSwallowed, h]

theorem isSwallowed_of_isDigit {b : UInt8} (h : isDigit b = true) : isSwallowed b = true := by
  simp [isSwallowed, h]

theorem rank_dropWhile_isFlag_le (s : GoString) : rank (s.dropWhile isFlag) ≤ rank s := by
  induction s with
  | nil => exact le_rfl
  | cons b s ih =>
    by_cases hb : isFlag b = true
    · rw [List.dropWhile_cons_of_pos hb]
      exact ih.trans (rank_le_cons (isSwallowed_of_isFlag hb) s)
    · rw [List.dropWhile_cons_of_neg hb]

theorem rank_parsenum_le (num : ℕ) (isnum : Bool) (s : GoString) :
    rank (parsenum num isnum s).2.2 ≤ rank s := by
  induction s generalizing num isnum with
  | nil => exact le_rfl
  | cons b s ih =>
    rw [parsenum]
    split_ifs with hdigit hlarge
    · -- a number that is too large takes the rest of the format with it
      exact rank_nonneg_of_isSwallowed (isSwallowed_of_isDigit hdigit) s
    · exact (ih _ _).trans (rank_le_cons (isSwallowed_of_isDigit hdigit) s)
    · exact le_rfl

theorem rank_argNumber_le (goodArgNum : Bool) (s : GoString) :
    rank (argNumber goodArgNum s).1 ≤ rank s := by
  cases s with
  | nil => exact le_rfl
  | cons b s =>
    rw [argNumber]
    split_ifs with hb
    · -- the bracket is consumed at least
      have hpos : ∃ n, (parseArgNumber (b :: s)).1 = n + 1 := by
        unfold parseArgNumber
        split_ifs
        · exact ⟨0, rfl⟩
        · split
          · exact ⟨0, rfl⟩
          · exact ⟨_, rfl⟩
      obtain ⟨n, hn⟩ := hpos
      show rank ((b :: s).drop (parseArgNumber (b :: s)).1) ≤ _
      rw [hn, List.drop_succ_cons]
      exact rank_drop_le (by rw [hb]; rfl) s n
    · exact le_rfl

theorem rank_width_le (afterIndex goodArgNum : Bool) (s : GoString) :
    rank (width afterIndex goodArgNum s).1 + rank (width afterIndex goodArgNum s).2.1 ≤ rank s := by
  cases s with
  | nil => exact le_rfl
  | cons b s =>
    rw [width]
    split_ifs with hb
    · -- a `*` is reported
      have hout : rank (("%!(BADWIDTH)" : String) : GoString) = 0 := rfl
      rw [hout, zero_add]
      exact rank_le_cons (by rw [hb]; rfl) s
    · have hout : rank (("" : String) : GoString) = 0 := rfl
      show rank (("" : String) : GoString) + rank (parsenum 0 false (b :: s)).2.2 ≤ _
      rw [hout, zero_add]
      exact rank_parsenum_le 0 false (b :: s)

theorem rank_precision_le (afterIndex goodArgNum : Bool) (s : GoString) :
    rank (precision afterIndex goodArgNum s).1 + rank (precision afterIndex goodArgNum s).2.1 ≤
      rank s := by
  have hempty : rank (("" : String) : GoString) = 0 := rfl
  unfold precision
  split
  · next b c rest =>
    split_ifs with hb
    · have harg := rank_argNumber_le (goodArgNum && !afterIndex) (c :: rest)
      have hdot : rank (c :: rest) ≤ rank (b :: c :: rest) :=
        rank_le_cons (by rw [hb]; rfl) _
      generalize argNumber (goodArgNum && !afterIndex) (c :: rest) = x at harg ⊢
      obtain ⟨s, afterIndex, goodArgNum⟩ := x
      refine le_trans ?_ (harg.trans hdot)
      cases s with
      | nil => exact (hempty ▸ zero_add _).le
      | cons d rest =>
        simp only
        split_ifs with hd
        · -- a `*` is reported here as well
          have hout : rank (("%!(BADPREC)" : String) : GoString) = 0 := rfl
          rw [hout, zero_add]
          exact rank_le_cons (by rw [hd]; rfl) rest
        · rw [hempty, zero_add]
          exact rank_parsenum_le 0 false (d :: rest)
    · rw [hempty, zero_add]
  · rw [hempty, zero_add]

/-- What is written of a rune has the rank of the bytes it was decoded from. These are
other bytes when they are not UTF-8, but then neither are ASCII. -/
theorem rank_encodeRune_decodeRune (b : UInt8) (s : GoString) :
    rank (encodeRune (decodeRune (b :: s)).1) = rank ((b :: s).take (decodeRune (b :: s)).2) := by
  by_cases hb : b < 0x80
  · rw [decodeRune_of_lt hb, encodeRune_of_lt hb]
    rfl
  · obtain ⟨hge, hbytes⟩ := decodeRune_of_le (UInt8.not_lt.mp hb) s
    rw [rank_of_le hbytes, rank_of_le (encodeRune_of_le hge)]

/-- **A verb** is reported with as much rank as it has, whatever it is. -/
theorem rank_verb (goodArgNum : Bool) (s : GoString) :
    rank (verb goodArgNum s).1 + rank (verb goodArgNum s).2 = rank s := by
  have hbang : rank (("%!" : String) : GoString) = 0 := rfl
  have hmissing : rank (("(MISSING)" : String) : GoString) = 0 := rfl
  have hbad : rank (("(BADINDEX)" : String) : GoString) = 0 := rfl
  cases s with
  | nil =>
    have hnoverb : rank (("%!(NOVERB)" : String) : GoString) = 0 := rfl
    rw [verb, hnoverb, zero_add]
  | cons b s =>
    have hrune : rank (encodeRune (decodeRune (b :: s)).1) +
        rank ((b :: s).drop (decodeRune (b :: s)).2) = rank (b :: s) := by
      rw [rank_encodeRune_decodeRune, ← rank_append, List.take_append_drop]
    rw [verb]
    simp only
    split_ifs with hpercent
    · -- a `%` is written back as it is
      rw [hpercent] at hrune
      exact hrune
    · rw [rank_append, rank_append, hbang, hmissing, zero_add, add_zero, hrune]
    · rw [rank_append, rank_append, hbang, hbad, zero_add, add_zero, hrune]

/-- **A directive** writes at most the rank that it reads after its `%`. -/
theorem rank_directive_le (s : GoString) :
    rank (directive s).1 + rank (directive s).2 ≤ rank s := by
  -- one piece after the other, each from what the last one has left
  rcases hindex : argNumber true (s.dropWhile isFlag) with ⟨s₂, a₂, g₂⟩
  rcases hwidth : width a₂ g₂ s₂ with ⟨out₁, s₃, a₃, g₃⟩
  rcases hprecision : precision a₃ g₃ s₃ with ⟨out₂, s₄, a₄, g₄⟩
  rcases hlast : (if a₄ then (s₄, true, g₄) else argNumber g₄ s₄) with ⟨s₅, a₅, g₅⟩
  rcases hverb : verb g₅ s₅ with ⟨out₃, s₆⟩
  have hdirective : directive s = (out₁ ++ out₂ ++ out₃, s₆) := by
    simp only [directive, hindex, hwidth, hprecision, hlast, hverb]
  have h₂ : rank s₂ ≤ rank s := by
    have h := rank_argNumber_le true (s.dropWhile isFlag)
    rw [hindex] at h
    exact h.trans (rank_dropWhile_isFlag_le s)
  have h₃ : rank out₁ + rank s₃ ≤ rank s₂ := by
    have h := rank_width_le a₂ g₂ s₂
    rwa [hwidth] at h
  have h₄ : rank out₂ + rank s₄ ≤ rank s₃ := by
    have h := rank_precision_le a₃ g₃ s₃
    rwa [hprecision] at h
  have h₅ : rank s₅ ≤ rank s₄ := by
    have h : rank (if a₄ then (s₄, true, g₄) else argNumber g₄ s₄).1 ≤ rank s₄ := by
      split_ifs
      · exact le_rfl
      · exact rank_argNumber_le g₄ s₄
    rwa [hlast] at h
  have h₆ : rank out₃ + rank s₆ = rank s₅ := by
    have h := rank_verb g₅ s₅
    rwa [hverb] at h
  rw [hdirective]
  calc rank (out₁ ++ out₂ ++ out₃) + rank s₆
      = rank out₁ + (rank out₂ + (rank out₃ + rank s₆)) := by
        rw [rank_append, rank_append, add_assoc, add_assoc]
    _ ≤ rank out₁ + (rank out₂ + rank s₄) := by gcongr; exact h₆.le.trans h₅
    _ ≤ rank out₁ + rank s₃ := by gcongr
    _ ≤ rank s := h₃.trans h₂

/-! ### The loop -/

/-- A format is what stands before its first `%`, the `%`, and the rest. -/
theorem eq_takeWhile_append_cons {format s : GoString} {b : UInt8}
    (h : format.dropWhile (· ≠ '%'.toUInt8) = b :: s) :
    b = '%'.toUInt8 ∧ format = format.takeWhile (· ≠ '%'.toUInt8) ++ b :: s := by
  refine ⟨?_, ?_⟩
  · have hhead := List.head_dropWhile_not (· ≠ '%'.toUInt8) (l := format) (by rw [h]; simp)
    simp only [h, List.head_cons, decide_eq_false_iff_not, not_not] at hhead
    exact hhead
  · rw [← h, List.takeWhile_append_dropWhile]

/-- **One round** of the loop writes less than it reads, when the rounds after it write at
most what they read: the directive does not make up for its `%`. -/
theorem rank_round_lt (text s : GoString) {out : GoString}
    (hout : rank out ≤ rank (directive s).2) :
    rank (text ++ (directive s).1 ++ out) < rank (text ++ '%'.toUInt8 :: s) := by
  have hpercent : 0 < byteRank '%'.toUInt8 := by decide
  calc rank (text ++ (directive s).1 ++ out)
      = rank text + (rank (directive s).1 + rank out) := by
        rw [rank_append, rank_append, add_assoc]
    _ ≤ rank text + (rank (directive s).1 + rank (directive s).2) := by gcongr
    _ ≤ rank text + rank s := by
        gcongr
        exact rank_directive_le s
    _ < rank text + rank ('%'.toUInt8 :: s) := by
        gcongr
        rw [rank_cons]
        exact lt_add_of_pos_left _ hpercent
    _ = rank (text ++ '%'.toUInt8 :: s) := (rank_append text _).symm

/-- **The loop** writes at most the rank of the format, and less if it gets to a `%`. -/
theorem rank_doPrintfLoop (n : ℕ) (format : GoString) :
    rank (doPrintfLoop n format) ≤ rank format ∧
      (n ≠ 0 → '%'.toUInt8 ∈ format → rank (doPrintfLoop n format) < rank format) := by
  -- by induction on the rounds
  induction n generalizing format with
  | zero => exact ⟨le_rfl, fun h => absurd rfl h⟩
  | succ n ih =>
    rw [doPrintfLoop]
    cases hrest : format.dropWhile (· ≠ '%'.toUInt8) with
    | nil =>
      -- there is no `%`, and the format is copied
      have hall := List.dropWhile_eq_nil_iff.mp hrest
      simp only [List.takeWhile_eq_self_iff.mpr hall]
      exact ⟨le_rfl, fun _ hmem => absurd (hall _ hmem) (by simp)⟩
    | cons b s =>
      obtain ⟨rfl, hformat⟩ := eq_takeWhile_append_cons hrest
      have hlt := rank_round_lt (format.takeWhile (· ≠ '%'.toUInt8)) s (ih (directive s).2).1
      rw [← hformat] at hlt
      exact ⟨hlt.le, fun _ _ => hlt⟩

/-- **A format is written as it is** exactly when there is no `%` in it. -/
theorem doPrintf_eq_self_iff {format : GoString} :
    doPrintf format = format ↔ '%'.toUInt8 ∉ format := by
  refine ⟨?_, ?_⟩
  · intro heq hmem
    have hlen : format.length ≠ 0 := by
      rw [ne_eq, List.length_eq_zero_iff]
      rintro rfl
      exact absurd hmem (by simp)
    have hlt := (rank_doPrintfLoop format.length format).2 hlen hmem
    rw [← doPrintf, heq] at hlt
    exact lt_irrefl _ hlt
  · intro hnone
    have hall : ∀ b ∈ format, decide (b ≠ '%'.toUInt8) = true := by
      intro b hb
      refine decide_eq_true ?_
      rintro rfl
      exact hnone hb
    have hcopy := List.takeWhile_eq_self_iff.mpr hall
    have hrest := List.dropWhile_eq_nil_iff.mpr hall
    unfold doPrintf
    cases hn : format.length with
    | zero => rfl
    | succ n =>
      rw [doPrintfLoop, hrest]
      exact hcopy

end PluginsDatastore
