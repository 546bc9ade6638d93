import Mathlib.Tactic.Ring
import PluginsDatastore.Go.Unquote
import PluginsDatastore.Words.Json

/-!
# What a JSON string stands for

`Means` is the meaning of what is between the quotes of a string, by the table of the
escapes, the value of four hexadecimal digits as a code unit of UTF-16, and UTF-8. Two
code units that are a surrogate pair stand for one rune; a surrogate without the other
one, and a byte that is no part of an encoded rune, stand for U+FFFD.

It is stated without the loop of `unquoteBytes`, which computes it on the strings of the
grammar (`means_iff`). All of these have a meaning (`exists_means`).
-/

namespace PluginsDatastore

open Words Computability

/-! ### Escapes -/

/-- The letters that may follow a backslash, and the bytes they stand for. -/
def escapes : List (UInt8 × UInt8) :=
  [(0x22, 0x22), (0x5C, 0x5C), (0x2F, 0x2F), (0x62, 0x08), (0x66, 0x0C), (0x6E, 0x0A),
    (0x72, 0x0D), (0x74, 0x09)]

/-- The hexadecimal digit of a value, in either case. -/
def HexDigit (c : UInt8) (n : ℕ) : Prop :=
  ("0123456789abcdef" : GoString)[n]? = some c ∨ ("0123456789ABCDEF" : GoString)[n]? = some c

/-- An escape with digits, and the code unit that they spell. -/
inductive CodeUnit : GoString → ℕ → Prop
  | digits {a b c d : UInt8} {n₁ n₂ n₃ n₄ : ℕ} (ha : HexDigit a n₁) (hb : HexDigit b n₂)
      (hc : HexDigit c n₃) (hd : HexDigit d n₄) :
      CodeUnit [0x5C, 0x75, a, b, c, d] (n₁ * 16 ^ 3 + n₂ * 16 ^ 2 + n₃ * 16 + n₄)

/-- The two surrogates by which UTF-16 encodes a rune beyond the code units. -/
structure SurrogatePair (hi lo r : ℕ) : Prop where
  inRange : 0x10000 ≤ r ∧ r ≤ 0x10FFFF
  hi_eq : hi = 0xD800 + (r - 0x10000) / 0x400
  lo_eq : lo = 0xDC00 + (r - 0x10000) % 0x400

/-- U+FFFD in UTF-8. -/
def replacement : GoString := [0xEF, 0xBF, 0xBD]

/-- **What a string stands for**, by what is between its quotes. -/
inductive Means : GoString → GoString → Prop
  | nil : Means [] []
  | rune {u s t : GoString} {r : ℕ} (hu : Decodes u r)
      (hplain : ∀ c ∈ u, 0x20 ≤ c ∧ c ≠ 0x22 ∧ c ≠ 0x5C) (h : Means s t) :
      Means (u ++ s) (u ++ t)
  /-- A byte with which no encoded rune begins. -/
  | byte {b : UInt8} {s t : GoString} (hb : ∀ u r, Decodes u r → ¬ u <+: b :: s)
      (h : Means s t) : Means (b :: s) (replacement ++ t)
  | escape {c b : UInt8} {s t : GoString} (hc : (c, b) ∈ escapes) (h : Means s t) :
      Means (0x5C :: c :: s) (b :: t)
  | unit {x u s t : GoString} {r : ℕ} (hx : CodeUnit x r) (hu : Decodes u r) (h : Means s t) :
      Means (x ++ s) (u ++ t)
  | pair {x y u s t : GoString} {hi lo r : ℕ} (hx : CodeUnit x hi) (hy : CodeUnit y lo)
      (hr : SurrogatePair hi lo r) (hu : Decodes u r) (h : Means s t) :
      Means (x ++ (y ++ s)) (u ++ t)
  /-- A surrogate that is not the first of a pair. -/
  | lone {x s t : GoString} {n : ℕ} (hx : CodeUnit x n) (hn : isSurrogate n)
      (hlone : ∀ y lo r, CodeUnit y lo → SurrogatePair n lo r → ¬ y <+: s) (h : Means s t) :
      Means (x ++ s) (replacement ++ t)

variable {s t u x : GoString} {b c : UInt8} {n r : ℕ}

/-! ### Digits and code units -/

theorem HexDigit.lt (h : HexDigit c n) : n < 16 := by
  rcases h with h | h <;> exact (List.getElem?_eq_some_iff.mp h).1

/-- The digits are those that are read, by their values. -/
theorem hexDigit_iff : HexDigit c n ↔ isHex c ∧ unhex c = n := by
  constructor
  · have hlower : ∀ n < 16, ∀ c ∈ ("0123456789abcdef" : GoString)[n]?, isHex c ∧ unhex c = n := by
      decide +kernel
    have hupper : ∀ n < 16, ∀ c ∈ ("0123456789ABCDEF" : GoString)[n]?, isHex c ∧ unhex c = n := by
      decide +kernel
    intro h
    exact h.elim (hlower n h.lt c) (hupper n h.lt c)
  · rintro ⟨hc, rfl⟩
    -- the digits of each range, by their place in it
    have hrange : ∀ lo len : ℕ, (∀ k < len, HexDigit (lo + k).toUInt8 (unhex (lo + k).toUInt8)) →
        lo ≤ c.toNat → c.toNat < lo + len → HexDigit c (unhex c) := by
      intro lo len hall hlo hlen
      have h := hall (c.toNat - lo) (by omega)
      rwa [toUInt8_eq (c := c) (by omega)] at h
    rcases hc with ⟨hlo, hhi⟩ | ⟨hlo, hhi⟩ | ⟨hlo, hhi⟩
    · exact hrange 48 10 (by unfold HexDigit; decide) hlo (Nat.lt_succ_of_le hhi)
    · exact hrange 97 6 (by unfold HexDigit; decide) hlo (Nat.lt_succ_of_le hhi)
    · exact hrange 65 6 (by unfold HexDigit; decide) hlo (Nat.lt_succ_of_le hhi)

/-- **A code unit is read** by `getu4` from the beginning of a string. -/
theorem getu4_eq_some_iff : getu4 s = some n ↔ ∃ x t, s = x ++ t ∧ CodeUnit x n := by
  constructor
  · intro h
    unfold getu4 at h
    split at h
    · next s0 s1 a b c d t =>
      split_ifs at h with hlead hhex
      obtain ⟨h0, h1⟩ := not_or.mp hlead
      obtain rfl := not_not.mp h0
      obtain rfl := not_not.mp h1
      obtain ⟨ha, hb, hc, hd⟩ := hhex
      obtain rfl := Option.some.inj h
      refine ⟨[0x5C, 0x75, a, b, c, d], t, rfl, ?_⟩
      have hunit := CodeUnit.digits (hexDigit_iff.mpr ⟨ha, rfl⟩) (hexDigit_iff.mpr ⟨hb, rfl⟩)
        (hexDigit_iff.mpr ⟨hc, rfl⟩) (hexDigit_iff.mpr ⟨hd, rfl⟩)
      convert hunit using 1
      ring
    · cases h
  · rintro ⟨x, t, rfl, hx⟩
    cases hx with
    | @digits a b c d n₁ n₂ n₃ n₄ ha hb hc hd =>
      obtain ⟨ha', rfl⟩ := hexDigit_iff.mp ha
      obtain ⟨hb', rfl⟩ := hexDigit_iff.mp hb
      obtain ⟨hc', rfl⟩ := hexDigit_iff.mp hc
      obtain ⟨hd', rfl⟩ := hexDigit_iff.mp hd
      have hlead : ¬ ((0x5C : UInt8) ≠ '\\'.toUInt8 ∨ (0x75 : UInt8) ≠ 'u'.toUInt8) := by decide
      show getu4 (0x5C :: 0x75 :: a :: b :: c :: d :: t) = _
      rw [getu4, if_neg hlead, if_pos ⟨ha', hb', hc', hd'⟩]
      exact congrArg some (by ring)

theorem CodeUnit.lt (h : CodeUnit x n) : n < 0x10000 := by
  cases h with
  | digits ha hb hc hd =>
    have ha := ha.lt
    have hb := hb.lt
    have hc := hc.lt
    have hd := hd.lt
    omega

/-! ### The loop computes it -/

theorem unescapeByte_of_mem_escapes (h : (c, b) ∈ escapes) : unescapeByte c = some b := by
  simp only [escapes, List.mem_cons, List.not_mem_nil, or_false, Prod.mk.injEq] at h
  rcases h with h | h | h | h | h | h | h | h <;> (obtain ⟨rfl, rfl⟩ := h; rfl)

/-- A byte with which no encoded rune begins is an error. -/
theorem decodeRune_of_not_prefix (hb : ∀ u r, Decodes u r → ¬ u <+: b :: s) :
    decodeRune (b :: s) = (runeError, 1) := by
  rcases decodeRune_cases b s with h | ⟨u, t, r, heq, hu, -⟩
  · exact h
  · exact absurd ⟨t, heq.symm⟩ (hb u r hu)

/-- Two code units are decoded as a pair exactly when they are the pair of a rune. -/
theorem decodeSurrogates_of_pair {hi lo : ℕ} (h : SurrogatePair hi lo r) :
    decodeSurrogates hi (some lo) = r := by
  obtain ⟨hr, hhi, hlo⟩ := h
  have hcond : 0xD800 ≤ hi ∧ hi < 0xDC00 ∧ 0xDC00 ≤ lo ∧ lo < 0xE000 := by omega
  show (if _ then _ else _) = r
  rw [if_pos hcond]
  omega

theorem surrogatePair_of_decode {hi lo : ℕ} (h : decodeSurrogates hi (some lo) ≠ runeError) :
    ∃ r, SurrogatePair hi lo r := by
  rw [decodeSurrogates] at h
  split_ifs at h with hpair
  · exact ⟨(hi - 0xD800) * 1024 + (lo - 0xDC00) + 0x10000, by omega, by omega, by omega⟩
  · exact absurd rfl h

/-- An escape with digits, followed by anything. -/
theorem CodeUnit.eq_cons (h : CodeUnit x n) :
    ∃ a b c d, x = ['\\'.toUInt8, 'u'.toUInt8, a, b, c, d] := by
  cases h with
  | digits => exact ⟨_, _, _, _, rfl⟩

theorem unquoteLoop_surrogate (hx : CodeUnit x n) (hn : isSurrogate n) (s : GoString) :
    unquoteLoop 0 (x ++ s) =
      if decodeSurrogates n (getu4 s) ≠ runeError then
        (encodeRune (decodeSurrogates n (getu4 s)) ++ ·) <$> unquoteLoop 0 (s.drop 6)
      else (encodeRune runeError ++ ·) <$> unquoteLoop 0 s := by
  have hget : getu4 (x ++ s) = some n := getu4_eq_some_iff.mpr ⟨x, s, rfl, hx⟩
  obtain ⟨a, b, c, d, rfl⟩ := hx.eq_cons
  simp only [List.cons_append, List.nil_append] at hget ⊢
  rw [unquoteLoop, if_pos rfl]
  simp only [List.head?_cons, if_true, hget, if_pos hn, unquoteLoop_drop 5, unquoteLoop_drop 11]
  rfl

/-- **What a string stands for is what the loop makes of it.** -/
theorem Means.unquoteLoop_eq (h : Means s t) : unquoteLoop 0 s = some t := by
  induction h with
  | nil => rfl
  | @rune u s t r hu hplain h ih =>
    rcases hu.not_ascii with ⟨b, hb, rfl⟩ | hle
    · have hplain' : isPlain b := by
        obtain ⟨hspace, hquote, hslash⟩ := hplain b List.mem_cons_self
        rintro (h | h | h)
        · exact hslash h
        · exact hquote h
        · exact UInt8.not_lt.mpr hspace h
      exact (unquoteLoop_plain hplain' hb s).trans (by rw [ih]; rfl)
    · rw [unquoteLoop_rune hu hle, ih]
      rfl
  | byte hb h ih =>
    -- the loop decodes a rune here, and replaces what is none
    have herror := decodeRune_of_not_prefix hb
    rw [unquoteLoop_error (le_of_decodeRune_error herror) herror, ih]
    rfl
  | escape hc h ih =>
    exact (unquoteLoop_escape (unescapeByte_of_mem_escapes hc) _).trans (by rw [ih]; rfl)
  | @unit x u s t r hx hu h ih =>
    have hget : getu4 (x ++ s) = some r := getu4_eq_some_iff.mpr ⟨x, s, rfl, hx⟩
    obtain ⟨a, b, c, d, rfl⟩ := hx.eq_cons
    refine (unquoteLoop_unicode hget hu.not_surrogate).trans ?_
    show (encodeRune r ++ ·) <$> unquoteLoop 0 s = _
    rw [ih, hu.encodeRune_eq]
    rfl
  | @pair x y u s t hi lo r hx hy hr hu h ih =>
    have hsurr : isSurrogate hi := by
      obtain ⟨hr, rfl, -⟩ := hr
      constructor <;> omega
    have hget : getu4 (y ++ s) = some lo := getu4_eq_some_iff.mpr ⟨y, s, rfl, hy⟩
    -- U+FFFD is no rune of a pair, so the loop can tell a pair by it
    have hne : r ≠ runeError := by
      have hrange := hr.inRange
      unfold runeError
      omega
    obtain ⟨a, b, c, d, rfl⟩ := hy.eq_cons
    rw [unquoteLoop_surrogate hx hsurr, hget, decodeSurrogates_of_pair hr, if_pos hne,
      hu.encodeRune_eq]
    show (u ++ ·) <$> unquoteLoop 0 s = _
    rw [ih]
    rfl
  | @lone x s t n hx hn hlone h ih =>
    -- whatever `getu4` reads after it is not the second of a pair
    rw [unquoteLoop_surrogate hx hn, if_neg, ih]
    · rfl
    · intro hne
      cases hget : getu4 s with
      | none => exact hne (by rw [hget]; rfl)
      | some lo =>
        rw [hget] at hne
        obtain ⟨y, t', rfl, hy⟩ := getu4_eq_some_iff.mp hget
        obtain ⟨r, hr⟩ := surrogatePair_of_decode hne
        exact hlone y lo r hy hr (List.prefix_append y t')

/-! ### The strings of the grammar -/

/-- The bytes of a rune that is not ASCII are no part of an escape. -/
theorem chars_of_append (hu : ∀ b ∈ u, 0x80 ≤ b) (h : u ++ s ∈ Json.chars) : s ∈ Json.chars := by
  induction u with
  | nil => exact h
  | cons b u ih =>
    rw [List.forall_mem_cons] at hu
    rcases Json.chars_cases h with heq | ⟨c, t, -, ht, heq⟩ | ⟨e, t, -, -, heq⟩
    · cases heq
    · obtain ⟨rfl, rfl⟩ := List.cons.inj heq
      exact ih hu.2 ht
    · obtain ⟨rfl, -⟩ := List.cons.inj heq
      exact absurd hu.1 (by decide)

/-- The letters that the grammar lets follow a backslash are those of the table. -/
theorem exists_mem_escapes
    (h : c ∈ ([0x62, 0x66, 0x6E, 0x72, 0x74, 0x5C, 0x2F, 0x22] : List UInt8)) :
    c ≠ 0x75 ∧ ∃ b, (c, b) ∈ escapes := by
  simp only [List.mem_cons, List.not_mem_nil, or_false] at h
  rcases h with rfl | rfl | rfl | rfl | rfl | rfl | rfl | rfl <;>
    exact ⟨by decide, _, by simp [escapes]; rfl⟩

/-- An escape with digits spells a code unit. -/
theorem exists_codeUnit {e : GoString}
    (h : e ∈ letter 0x75 * Json.hex * Json.hex * Json.hex * Json.hex) :
    ∃ n, CodeUnit (0x5C :: e) n := by
  obtain ⟨_, ⟨_, ⟨_, ⟨_, ⟨_, rfl, rfl⟩, _, ⟨a, ha, rfl⟩, rfl⟩, _, ⟨b, hb, rfl⟩, rfl⟩, _,
    ⟨c, hc, rfl⟩, rfl⟩, _, ⟨d, hd, rfl⟩, rfl⟩ := h
  have hdigit : ∀ {c : UInt8}, ((0x30 ≤ c ∧ c ≤ 0x39) ∨ (0x61 ≤ c ∧ c ≤ 0x66) ∨
      (0x41 ≤ c ∧ c ≤ 0x46)) → HexDigit c (unhex c) := fun h => hexDigit_iff.mpr ⟨h, rfl⟩
  exact ⟨_, .digits (hdigit ha) (hdigit hb) (hdigit hc) (hdigit hd)⟩

/-- What follows an escape with digits in a string of the grammar is one again. -/
theorem chars_of_codeUnit (hx : CodeUnit x n) (hs : x ++ s ∈ Json.chars) : s ∈ Json.chars := by
  obtain ⟨a, b, c, d, rfl⟩ := hx.eq_cons
  rcases Json.chars_cases hs with heq | ⟨c, t, hc, -, heq⟩ | ⟨e, t, he | he, ht, heq⟩
  · cases heq
  · obtain ⟨rfl, -⟩ := List.cons.inj heq
    exact absurd rfl hc.2.2
  · -- the letter `u` is not in the table
    obtain ⟨c, hc, rfl⟩ := he
    obtain ⟨-, heq⟩ := List.cons.inj heq
    obtain ⟨rfl, -⟩ := List.cons.inj heq
    exact absurd rfl (exists_mem_escapes hc).1
  · -- both are six bytes
    obtain ⟨n, hn⟩ := exists_codeUnit he
    obtain ⟨a', b', c', d', he⟩ := hn.eq_cons
    obtain ⟨-, rfl⟩ := List.cons.inj he
    obtain ⟨-, heq⟩ := List.cons.inj heq
    have hrest : s = t := congrArg (List.drop 5) heq
    exact hrest ▸ ht

/-- An escape with digits stands for something if what comes after it does. -/
theorem exists_means_codeUnit (hx : CodeUnit x n) (hs : s ∈ Json.chars)
    (h : ∀ s' : GoString, s'.length ≤ s.length → s' ∈ Json.chars → ∃ t, Means s' t) :
    ∃ t, Means (x ++ s) t := by
  by_cases hn : isSurrogate n
  · by_cases hpair : ∃ y lo r, CodeUnit y lo ∧ SurrogatePair n lo r ∧ y <+: s
    · -- the two code units go together
      obtain ⟨y, lo, r, hy, hr, s', rfl⟩ := hpair
      obtain ⟨t, hmeans⟩ := h s' (by simp) (chars_of_codeUnit hy hs)
      obtain ⟨u, hu⟩ := exists_decodes hr.inRange.2 fun hsurr =>
        absurd hr.inRange.1 (Nat.not_le.mpr (Nat.lt_trans hsurr.2 (by decide)))
      exact ⟨_, .pair hx hy hr hu hmeans⟩
    · obtain ⟨t, hmeans⟩ := h s le_rfl hs
      refine ⟨_, .lone hx hn (fun y lo r hy hr hprefix => ?_) hmeans⟩
      exact hpair ⟨y, lo, r, hy, hr, hprefix⟩
  · obtain ⟨t, hmeans⟩ := h s le_rfl hs
    obtain ⟨u, hu⟩ := exists_decodes (Nat.le_trans (Nat.le_of_lt hx.lt) (by decide)) hn
    exact ⟨_, .unit hx hu hmeans⟩

/-- A byte that is not escaped stands for something, alone or as the first of a rune, if
what comes after that does. -/
theorem exists_means_cons (hc : 0x20 ≤ c ∧ c ≠ 0x22 ∧ c ≠ 0x5C) (hs : s ∈ Json.chars)
    (hcs : c :: s ∈ Json.chars)
    (h : ∀ s' : GoString, s'.length < (c :: s).length → s' ∈ Json.chars → ∃ t, Means s' t) :
    ∃ t, Means (c :: s) t := by
  by_cases hrune : ∃ u r, Decodes u r ∧ u <+: c :: s
  · obtain ⟨u, r, hu, s', heq⟩ := hrune
    have hlt : s'.length < (c :: s).length := by
      rw [← heq, List.length_append]
      exact Nat.lt_add_of_pos_left (List.length_pos_of_ne_nil hu.ne_nil)
    rcases hu.not_ascii with ⟨b, hb, rfl⟩ | hle
    · obtain ⟨rfl, rfl⟩ := List.cons.inj heq
      obtain ⟨t, hmeans⟩ := h s' hlt hs
      refine ⟨_, .rune hu (fun b' hb' => ?_) hmeans⟩
      obtain rfl := List.mem_singleton.mp hb'
      exact hc
    · -- its other bytes are not escaped either
      rw [← heq] at hcs ⊢
      obtain ⟨t, hmeans⟩ := h s' hlt (chars_of_append hle hcs)
      refine ⟨_, .rune hu (fun b' hb' => ?_) hmeans⟩
      have hplain := isPlain_of_le (hle b' hb')
      exact ⟨UInt8.not_lt.mp fun h => hplain (.inr (.inr h)), fun h => hplain (.inr (.inl h)),
        fun h => hplain (.inl h)⟩
  · obtain ⟨t, hmeans⟩ := h s (Nat.lt_succ_self _) hs
    exact ⟨_, .byte (fun u r hu hprefix => hrune ⟨u, r, hu, hprefix⟩) hmeans⟩

/-- **Every string of the grammar stands for something.** -/
theorem exists_means (hs : s ∈ Json.chars) : ∃ t, Means s t := by
  -- by the length, since a rune and an escape take several bytes
  induction hn : s.length using Nat.strong_induction_on generalizing s with
  | _ n ih =>
  subst hn
  have hescaped : ∀ {x t : GoString}, t.length < (0x5C :: (x ++ t) : GoString).length := by
    intro x t
    rw [List.length_cons, List.length_append]
    omega
  rcases Json.chars_cases hs with rfl | ⟨c, t, hc, ht, rfl⟩ | ⟨e, t, he | he, ht, rfl⟩
  · exact ⟨[], .nil⟩
  · exact exists_means_cons hc ht hs fun s' hlt hs' => ih _ hlt hs' rfl
  · -- a letter of the table
    obtain ⟨c, hc, rfl⟩ := he
    obtain ⟨-, b, hb⟩ := exists_mem_escapes hc
    obtain ⟨t', hmeans⟩ := ih t.length hescaped ht rfl
    exact ⟨_, .escape hb hmeans⟩
  · -- four digits
    obtain ⟨n, hx⟩ := exists_codeUnit he
    exact exists_means_codeUnit hx ht fun s' hle hs' =>
      ih _ (Nat.lt_of_le_of_lt hle hescaped) hs' rfl

/-- What is between the quotes of a string, unquoted. -/
def unquoted (s : GoString) : GoString := (unquoteLoop 0 s).getD []

/-- **A string of the grammar stands for exactly what it is unquoted to.** -/
theorem means_iff (hs : s ∈ Json.chars) : Means s t ↔ t = unquoted s := by
  obtain ⟨t', ht'⟩ := exists_means hs
  have hloop := ht'.unquoteLoop_eq
  rw [unquoted, hloop]
  constructor
  · intro h
    exact Option.some.inj (h.unquoteLoop_eq.symm.trans hloop)
  · rintro rfl
    exact ht'

theorem unquoteBytes_of_chars (hs : s ∈ Json.chars) :
    unquoteBytes ([0x22] ++ s ++ [0x22]) = some (unquoted s) := by
  obtain ⟨t, ht⟩ := exists_means hs
  rw [unquoted, ht.unquoteLoop_eq]
  exact (unquoteBytes_quoted s).trans ht.unquoteLoop_eq

end PluginsDatastore
