import PluginsDatastore.Go.Scanner
import PluginsDatastore.Go.Utf8

/-!
# Unquoting of JSON strings

`unquote` of `decode.go` turns a quoted JSON string into the bytes it stands for. It
inverts `encodeState.string`, which writes such strings, up to the bytes that are not
UTF-8: these come back as U+FFFD (`encodeString_roundTrip`).

A string without escapes is returned as it is, without going through the loop that
decodes. `unquoteBytes_quoted` says that the loop would return the same.

The loops are over an index into the string. Here they go through the bytes, and the
first argument counts those that the index has moved past already.
-/

namespace PluginsDatastore

/-! ### UTF-16 -/

/-- `utf16.IsSurrogate`. -/
def isSurrogate (r : ℕ) : Prop := 0xD800 ≤ r ∧ r < 0xE000

instance : DecidablePred isSurrogate := fun r => by unfold isSurrogate; infer_instance

/-- `utf16.DecodeRune`, of a rune and a second one that may be negative. -/
def decodeSurrogates (r1 : ℕ) (r2 : Option ℕ) : ℕ :=
  match r2 with
  | none => runeError
  | some r2 =>
    if 0xD800 ≤ r1 ∧ r1 < 0xDC00 ∧ 0xDC00 ≤ r2 ∧ r2 < 0xE000 then
      (r1 - 0xD800) * 1024 + (r2 - 0xDC00) + 0x10000
    else runeError

/-! ### Unquoting -/

/-- The value of a hexadecimal digit. -/
def unhex (c : UInt8) : ℕ :=
  if isDecimal c then c.toNat - 48
  else if 'a'.toUInt8 ≤ c ∧ c ≤ 'f'.toUInt8 then c.toNat - 97 + 10
  else if 'A'.toUInt8 ≤ c ∧ c ≤ 'F'.toUInt8 then c.toNat - 65 + 10
  else 0

/-- `getu4`: the value of the escape `\u1234` that a string begins with, if it does. -/
def getu4 (s : GoString) : Option ℕ :=
  match s with
  | s0 :: s1 :: a :: b :: c :: d :: _ =>
    if s0 ≠ '\\'.toUInt8 ∨ s1 ≠ 'u'.toUInt8 then none
    -- `strconv.ParseUint` in base 16
    else if isHex a ∧ isHex b ∧ isHex c ∧ isHex d then
      some (((unhex a * 16 + unhex b) * 16 + unhex c) * 16 + unhex d)
    else none
  | _ => none

/-- The byte that a letter after a backslash stands for. -/
def unescapeByte (c : UInt8) : Option UInt8 :=
  if c = '"'.toUInt8 ∨ c = '\\'.toUInt8 ∨ c = '/'.toUInt8 ∨ c = '\''.toUInt8 then some c
  else if c = 'b'.toUInt8 then some 8
  else if c = 'f'.toUInt8 then some 12
  else if c = 'n'.toUInt8 then some 10
  else if c = 'r'.toUInt8 then some 13
  else if c = 't'.toUInt8 then some 9
  else none

/-- The loop of `unquoteBytes`. -/
def unquoteLoop : ℕ → GoString → Option GoString
  | _, [] => some []
  | skip + 1, _ :: s => unquoteLoop skip s
  | 0, c :: s =>
    if c = '\\'.toUInt8 then
      match s.head? with
      | none => none
      | some e =>
        if e = 'u'.toUInt8 then
          match getu4 (c :: s) with
          | none => none
          | some rr =>
            if isSurrogate rr then
              let dec := decodeSurrogates rr (getu4 ((c :: s).drop 6))
              if dec ≠ runeError then (encodeRune dec ++ ·) <$> unquoteLoop 11 s
              else (encodeRune runeError ++ ·) <$> unquoteLoop 5 s
            else (encodeRune rr ++ ·) <$> unquoteLoop 5 s
        else
          match unescapeByte e with
          | none => none
          | some b => (b :: ·) <$> unquoteLoop 1 s
    -- quote, control characters are invalid
    else if c = '"'.toUInt8 ∨ c < ' '.toUInt8 then none
    else if c < 0x80 then (c :: ·) <$> unquoteLoop 0 s
    else (encodeRune (decodeRune (c :: s)).1 ++ ·) <$> unquoteLoop ((decodeRune (c :: s)).2 - 1) s

/-- The loop of `unquoteBytes` that looks for unusual characters: the length of the text
before the first one. -/
def plainLoop : ℕ → GoString → ℕ
  | _, [] => 0
  | skip + 1, _ :: s => 1 + plainLoop skip s
  | 0, c :: s =>
    if c = '\\'.toUInt8 ∨ c = '"'.toUInt8 ∨ c < ' '.toUInt8 then 0
    else if c < 0x80 then 1 + plainLoop 0 s
    else if decodeRune (c :: s) = (runeError, 1) then 0
    else 1 + plainLoop ((decodeRune (c :: s)).2 - 1) s

/-- `unquoteBytes`, which `unquote` is with another type. -/
def unquoteBytes (s : GoString) : Option GoString :=
  if s.length < 2 ∨ s.head? ≠ some '"'.toUInt8 ∨ s.getLast? ≠ some '"'.toUInt8 then none
  else
    let s := (s.drop 1).dropLast
    let r := plainLoop 0 s
    if r = s.length then some s
    else (s.take r ++ ·) <$> unquoteLoop 0 (s.drop r)

example : unquoteBytes "\"a\\n\\u00e9\\ud83d\\ude00\"" = some ("a\né😀" : GoString) := by
  decide

variable {s t u : GoString} {b c e : UInt8} {r k : ℕ}

/-! ### The rounds of the loop -/

theorem unquoteLoop_drop (k : ℕ) (s : GoString) : unquoteLoop k s = unquoteLoop 0 (s.drop k) := by
  induction s generalizing k with
  | nil => simp [unquoteLoop]
  | cons c s ih =>
    cases k with
    | zero => rfl
    | succ k => exact ih k

/-- A byte that needs no unquoting. -/
def isPlain (c : UInt8) : Prop := ¬ (c = '\\'.toUInt8 ∨ c = '"'.toUInt8 ∨ c < ' '.toUInt8)

theorem unquoteLoop_plain (hc : isPlain c) (hascii : c < 0x80) (s : GoString) :
    unquoteLoop 0 (c :: s) = (c :: ·) <$> unquoteLoop 0 s := by
  obtain ⟨hslash, hrest⟩ := not_or.mp hc
  rw [unquoteLoop, if_neg hslash, if_neg hrest, if_pos hascii]

theorem isPlain_of_le (hc : 0x80 ≤ c) : isPlain c := by
  have hne : ∀ x : UInt8, x < 0x80 → c ≠ x := by
    rintro x hx rfl
    exact UInt8.not_le.mpr hx hc
  rintro (rfl | rfl | hlt)
  · exact hne _ (by decide) rfl
  · exact hne _ (by decide) rfl
  · exact UInt8.not_le.mpr (UInt8.lt_trans hlt (by decide)) hc

/-- A byte that is not ASCII begins a rune or is none. -/
theorem unquoteLoop_of_le (hc : 0x80 ≤ c) (s : GoString) :
    unquoteLoop 0 (c :: s) = (encodeRune (decodeRune (c :: s)).1 ++ ·) <$>
      unquoteLoop ((decodeRune (c :: s)).2 - 1) s := by
  obtain ⟨hslash, hrest⟩ := not_or.mp (isPlain_of_le hc)
  rw [unquoteLoop, if_neg hslash, if_neg hrest, if_neg (UInt8.not_lt.mpr hc)]

theorem unquoteLoop_error (hc : 0x80 ≤ c) (h : decodeRune (c :: s) = (runeError, 1)) :
    unquoteLoop 0 (c :: s) = (encodeRune runeError ++ ·) <$> unquoteLoop 0 s := by
  rw [unquoteLoop_of_le hc, h]
  rfl

theorem unquoteLoop_rune (h : Decodes u r) (hu : ∀ x ∈ u, 0x80 ≤ x) (s : GoString) :
    unquoteLoop 0 (u ++ s) = (u ++ ·) <$> unquoteLoop 0 s := by
  obtain ⟨c, t, rfl⟩ : ∃ c t, u = c :: t := by cases h <;> exact ⟨_, _, rfl⟩
  have hdec := h.decodeRune_eq s
  rw [List.cons_append] at hdec ⊢
  rw [unquoteLoop_of_le (hu c (List.mem_cons_self ..)), hdec, h.encodeRune_eq, unquoteLoop_drop]
  simp

theorem unquoteLoop_escape (h : unescapeByte e = some b) (s : GoString) :
    unquoteLoop 0 ('\\'.toUInt8 :: e :: s) = (b :: ·) <$> unquoteLoop 0 s := by
  have hu : e ≠ 'u'.toUInt8 := by
    rintro rfl
    cases h
  rw [unquoteLoop, if_pos rfl]
  simp only [List.head?_cons, if_neg hu, h]
  rfl

theorem unquoteLoop_unicode {a b c d : UInt8}
    (h : getu4 ('\\'.toUInt8 :: 'u'.toUInt8 :: a :: b :: c :: d :: s) = some r)
    (hr : ¬ isSurrogate r) :
    unquoteLoop 0 ('\\'.toUInt8 :: 'u'.toUInt8 :: a :: b :: c :: d :: s) =
      (encodeRune r ++ ·) <$> unquoteLoop 0 s := by
  rw [unquoteLoop, if_pos rfl]
  simp only [List.head?_cons, if_true, h, if_neg hr, unquoteLoop_drop 5]
  rfl

/-! ### The path without the loop -/

theorem plainLoop_drop (h : k ≤ s.length) : plainLoop k s = k + plainLoop 0 (s.drop k) := by
  induction s generalizing k with
  | nil =>
    obtain rfl : k = 0 := Nat.le_zero.mp h
    rfl
  | cons c s ih =>
    cases k with
    | zero => simp
    | succ k =>
      rw [plainLoop, ih (Nat.le_of_succ_le_succ h), List.drop_succ_cons]
      omega

theorem plainLoop_rune (h : Decodes u r) (hu : ∀ x ∈ u, 0x80 ≤ x) (s : GoString) :
    plainLoop 0 (u ++ s) = u.length + plainLoop 0 s := by
  have hdec := h.decodeRune_eq s
  have herr : decodeRune (u ++ s) ≠ (runeError, 1) := by
    rw [hdec]
    cases h <;> simp [runeError] at hu ⊢
    rename_i hb
    exact absurd hb (UInt8.not_lt.mpr hu)
  obtain ⟨c, t, rfl⟩ : ∃ c t, u = c :: t := by cases h <;> exact ⟨_, _, rfl⟩
  have hc := hu c (List.mem_cons_self ..)
  rw [List.cons_append] at hdec herr ⊢
  rw [plainLoop, if_neg (isPlain_of_le hc), if_neg (UInt8.not_lt.mpr hc), if_neg herr, hdec,
    plainLoop_drop (by simp)]
  simp
  omega

/-- **The shortcut agrees with the loop**: what the loop makes of a string is the text
before the first unusual character and what the loop makes of the rest. -/
theorem unquoteLoop_eq_take (s : GoString) :
    (s.take (plainLoop 0 s) ++ ·) <$> unquoteLoop 0 (s.drop (plainLoop 0 s)) =
      unquoteLoop 0 s := by
  -- an unusual character stops the one loop, and a rune takes both on
  have hstop : ∀ s, plainLoop 0 s = 0 →
      (s.take (plainLoop 0 s) ++ ·) <$> unquoteLoop 0 (s.drop (plainLoop 0 s)) =
        unquoteLoop 0 s := by
    intro s hs
    rw [hs]
    simp
  have hgo : ∀ u s, plainLoop 0 (u ++ s) = u.length + plainLoop 0 s →
      unquoteLoop 0 (u ++ s) = (u ++ ·) <$> unquoteLoop 0 s →
      (s.take (plainLoop 0 s) ++ ·) <$> unquoteLoop 0 (s.drop (plainLoop 0 s)) =
        unquoteLoop 0 s →
      ((u ++ s).take (plainLoop 0 (u ++ s)) ++ ·) <$>
        unquoteLoop 0 ((u ++ s).drop (plainLoop 0 (u ++ s))) = unquoteLoop 0 (u ++ s) := by
    intro u s hplain hunquote ih
    rw [hplain, hunquote, ← ih, List.take_length_add_append, List.drop_length_add_append]
    simp [Function.comp_def]
  induction s using runeInduction with
  | nil => rfl
  | error b s h ih =>
    have hb := le_of_decodeRune_error h
    refine hstop _ ?_
    rw [plainLoop, if_neg (isPlain_of_le hb), if_neg (UInt8.not_lt.mpr hb), if_pos h]
  | rune u r s h ih =>
    rcases h.not_ascii with ⟨b, hb, rfl⟩ | hu
    · by_cases hplain : isPlain b
      · refine hgo [b] s ?_ (unquoteLoop_plain hplain hb s) ih
        exact (if_neg hplain).trans (if_pos hb)
      · exact hstop _ (if_pos (not_not.mp hplain))
    · exact hgo u s (plainLoop_rune h hu s) (unquoteLoop_rune h hu s) ih

/-- What is between two quotes goes through the loop, whether it does or not. -/
theorem unquoteBytes_quoted (s : GoString) :
    unquoteBytes ("\"" ++ s ++ "\"") = unquoteLoop 0 s := by
  have hs : ((("\"" ++ s ++ "\"" : GoString).drop 1)).dropLast = s := by
    change (s ++ ['"'.toUInt8]).dropLast = s
    exact List.dropLast_concat
  have hquotes : ¬ (("\"" ++ s ++ "\"" : GoString).length < 2 ∨
      ("\"" ++ s ++ "\"" : GoString).head? ≠ some '"'.toUInt8 ∨
      ("\"" ++ s ++ "\"" : GoString).getLast? ≠ some '"'.toUInt8) := by
    change ¬ (('"'.toUInt8 :: s ++ ['"'.toUInt8]).length < 2 ∨
      ('"'.toUInt8 :: s ++ ['"'.toUInt8]).head? ≠ _ ∨
      ('"'.toUInt8 :: s ++ ['"'.toUInt8]).getLast? ≠ _)
    refine not_or.mpr ⟨by simp, not_or.mpr ⟨by simp, ?_⟩⟩
    rw [List.getLast?_concat]
    simp
  rw [unquoteBytes, if_neg hquotes]
  simp only [hs]
  split_ifs with hall
  · rw [← unquoteLoop_eq_take s, hall]
    simp [unquoteLoop]
  · exact unquoteLoop_eq_take s

/-! ### What the encoder writes -/

theorem hexDigit_spec : ∀ n < 16, isHex (hexDigit n) ∧ unhex (hexDigit n) = n := by decide

/-- What the encoder writes for a byte of ASCII is unquoted to that byte. -/
theorem unquoteLoop_escapeByte (hb : b < 0x80) (s : GoString) :
    unquoteLoop 0 (escapeByte b ++ s) = (b :: ·) <$> unquoteLoop 0 s := by
  unfold escapeByte
  split_ifs with hplain hquote hn hr ht
  · refine unquoteLoop_plain ?_ hb s
    rintro (h | h | h)
    · exact hplain.2.1 h
    · exact hplain.2.2.1 h
    · exact UInt8.not_lt.mpr hplain.1 h
  · refine unquoteLoop_escape ?_ s
    rcases hquote with rfl | rfl
    · rfl
    · rfl
  · subst hn
    exact unquoteLoop_escape rfl s
  · subst hr
    exact unquoteLoop_escape rfl s
  · subst ht
    exact unquoteLoop_escape rfl s
  · have hlt : b.toNat < 128 := hb
    obtain ⟨hhi, hhi'⟩ := hexDigit_spec (b.toNat / 16) (by omega)
    obtain ⟨hlo, hlo'⟩ := hexDigit_spec (b.toNat % 16) (by omega)
    have hget : getu4 ('\\'.toUInt8 :: 'u'.toUInt8 :: '0'.toUInt8 :: '0'.toUInt8 ::
        hexDigit (b.toNat / 16) :: hexDigit (b.toNat % 16) :: s) = some b.toNat := by
      have hzero : isHex '0'.toUInt8 := by decide
      have hunhex : unhex '0'.toUInt8 = 0 := by decide
      simp only [getu4, ne_eq, not_true_eq_false, or_self, if_false, hzero, hhi, hlo, and_self,
        if_true, hunhex, hhi', hlo', Option.some.injEq]
      omega
    have hsurr : ¬ isSurrogate b.toNat := by
      unfold isSurrogate
      omega
    refine (unquoteLoop_unicode hget hsurr).trans ?_
    rw [encodeRune_of_lt hb]
    rfl

/-- The runes that the encoder escapes for JavaScript. -/
theorem unquoteLoop_separator (hr : r = 0x2028 ∨ r = 0x2029) (s : GoString) :
    unquoteLoop 0 (("\\u202" : GoString) ++ [hexDigit (r % 16)] ++ s) =
      (encodeRune r ++ ·) <$> unquoteLoop 0 s := by
  rcases hr with rfl | rfl
  · exact unquoteLoop_unicode rfl (by decide)
  · exact unquoteLoop_unicode rfl (by decide)

/-- The rounds of the encoder's loop. -/
theorem encodeStringLoop_error (h : decodeRune (b :: s) = (runeError, 1)) (n : ℕ) :
    encodeStringLoop (n + 1) (b :: s) = ("\\ufffd" : GoString) ++ encodeStringLoop n s := by
  have hb := le_of_decodeRune_error h
  rw [encodeStringLoop, if_neg (UInt8.not_lt.mpr hb), h]
  rfl

theorem encodeStringLoop_rune (h : Decodes u r) (hu : ∀ x ∈ u, 0x80 ≤ x) (s : GoString) (n : ℕ) :
    encodeStringLoop (n + 1) (u ++ s) =
      (if r = 0x2028 ∨ r = 0x2029 then ("\\u202" : GoString) ++ [hexDigit (r % 16)] else u)
        ++ encodeStringLoop n s := by
  have hdec := h.decodeRune_eq s
  have hlen : u.length ≠ 1 := by
    cases h <;> simp at hu ⊢
    rename_i hb
    exact absurd hb (UInt8.not_lt.mpr hu)
  obtain ⟨c, t, rfl⟩ : ∃ c t, u = c :: t := by cases h <;> exact ⟨_, _, rfl⟩
  have hc := hu c (List.mem_cons_self ..)
  rw [List.cons_append] at hdec ⊢
  rw [encodeStringLoop, if_neg (UInt8.not_lt.mpr hc), hdec]
  have hne : ¬ (r = runeError ∧ (c :: t).length = 1) := fun h => hlen h.2
  simp only [if_neg hne]
  rw [← List.cons_append, List.drop_left, List.take_left]
  split_ifs
  · rfl
  · rfl

/-- **The loop undoes the encoder's.** -/
theorem unquoteLoop_encodeStringLoop (s : GoString) :
    ∀ n, s.length ≤ n → unquoteLoop 0 (encodeStringLoop n s) = some (toValid s) := by
  induction s using runeInduction with
  | nil =>
    intro n _
    cases n <;> rfl
  | error b s h ih =>
    intro n hn
    obtain ⟨n, rfl⟩ : ∃ m, n = m + 1 := ⟨n - 1, by rw [List.length_cons] at hn; omega⟩
    rw [encodeStringLoop_error h, toValid_error h]
    have ih := ih n (by simpa using hn)
    refine (unquoteLoop_unicode (r := runeError) rfl (by decide)).trans ?_
    exact congrArg _ ih
  | rune u r s h ih =>
    intro n hn
    rw [List.length_append] at hn
    have hpos : 0 < u.length := by cases h <;> simp
    obtain ⟨n, rfl⟩ : ∃ m, n = m + 1 := ⟨n - 1, by omega⟩
    have ih := ih n (by omega)
    rw [toValid_append h]
    rcases h.not_ascii with ⟨b, hb, rfl⟩ | hu
    · have hloop : encodeStringLoop (n + 1) ([b] ++ s) = escapeByte b ++ encodeStringLoop n s :=
        if_pos hb
      rw [hloop, unquoteLoop_escapeByte hb, ih]
      rfl
    · rw [encodeStringLoop_rune h hu]
      split_ifs with hsep
      · rw [unquoteLoop_separator hsep, ih, h.encodeRune_eq]
        rfl
      · rw [unquoteLoop_rune h hu, ih]
        rfl

/-- **A string that the encoder has written** is unquoted to the runes of the string. -/
theorem unquote_encodeString (s : GoString) : unquoteBytes (encodeString s) = some (toValid s) := by
  rw [encodeString, unquoteBytes_quoted]
  exact unquoteLoop_encodeStringLoop s _ (Nat.le_refl _)

/-- **A string that is written and read again** comes back with the bytes that are not
UTF-8 replaced, and so as it was exactly when it is UTF-8. -/
theorem encodeString_roundTrip (s : GoString) :
    unquoteBytes (encodeString s) = some (toValid s) ∧
      (unquoteBytes (encodeString s) = some s ↔ IsUtf8 s) := by
  refine ⟨unquote_encodeString s, ?_⟩
  rw [unquote_encodeString, Option.some_inj, toValid_eq_iff]

end PluginsDatastore
