import PluginsDatastore.Go.Text

/-!
# Runes and their encodings

`decodeRune` and `encodeRune` are inverse to each other on the bytes that are UTF-8:
`Decodes u r` says that `u` is the encoding of `r`, whole and of the right length, and
either of the two functions takes one to the other.

`toValid` is the conversion of a string to runes and back, which puts U+FFFD for each byte
that is not part of a rune. It changes nothing exactly when there is no such byte
(`toValid_eq_iff`).
-/

namespace PluginsDatastore

/-! ### One rune -/

/-- **The encoding of a rune**: a byte of ASCII, or a lead byte of the table with as many
continuation bytes as it announces. -/
inductive Decodes : GoString → ℕ → Prop
  | one {b : UInt8} (hb : b < 0x80) : Decodes [b] b.toNat
  | two {s0 s1 lo hi : UInt8} (h0 : 0x80 ≤ s0) (hlead : leadByte s0 = some (2, lo, hi))
      (h1 : lo ≤ s1) (h1' : s1 ≤ hi) :
      Decodes [s0, s1] (s0.toNat % 32 * 64 + continuation s1)
  | three {s0 s1 s2 lo hi : UInt8} (h0 : 0x80 ≤ s0) (hlead : leadByte s0 = some (3, lo, hi))
      (h1 : lo ≤ s1) (h1' : s1 ≤ hi) (h2 : 0x80 ≤ s2) (h2' : s2 ≤ 0xBF) :
      Decodes [s0, s1, s2] (s0.toNat % 16 * 4096 + continuation s1 * 64 + continuation s2)
  | four {s0 s1 s2 s3 lo hi : UInt8} (h0 : 0x80 ≤ s0) (hlead : leadByte s0 = some (4, lo, hi))
      (h1 : lo ≤ s1) (h1' : s1 ≤ hi) (h2 : 0x80 ≤ s2) (h2' : s2 ≤ 0xBF) (h3 : 0x80 ≤ s3)
      (h3' : s3 ≤ 0xBF) :
      Decodes [s0, s1, s2, s3]
        (s0.toNat % 8 * 262144 + continuation s1 * 4096 + continuation s2 * 64 + continuation s3)

variable {s u : GoString} {b c : UInt8} {n r : ℕ}

/-- An encoding is decoded, whatever comes after it. -/
theorem Decodes.decodeRune_eq (h : Decodes u r) (s : GoString) :
    decodeRune (u ++ s) = (r, u.length) := by
  have hrange : ∀ {x lo hi : UInt8}, lo ≤ x → x ≤ hi → ¬ (x < lo ∨ hi < x) := fun h h' =>
    not_or.mpr ⟨UInt8.not_lt.mpr h, UInt8.not_lt.mpr h'⟩
  cases h with
  | one hb => exact decodeRune_of_lt hb s
  | two h0 hlead h1 h1' => simp [decodeRune, UInt8.not_lt.mpr h0, hlead, hrange h1 h1']
  | three h0 hlead h1 h1' h2 h2' =>
    simp [decodeRune, UInt8.not_lt.mpr h0, hlead, hrange h1 h1', hrange h2 h2']
  | four h0 hlead h1 h1' h2 h2' h3 h3' =>
    simp [decodeRune, UInt8.not_lt.mpr h0, hlead, hrange h1 h1', hrange h2 h2', hrange h3 h3']

/-- What is decoded is an encoding at the beginning of the string, or an error of one
byte. -/
theorem decodeRune_cases (b : UInt8) (s : GoString) :
    decodeRune (b :: s) = (runeError, 1) ∨
      ∃ u t r, b :: s = u ++ t ∧ Decodes u r ∧ u ≠ [] := by
  by_cases hb : b < 0x80
  · exact .inr ⟨[b], s, _, rfl, .one hb, by simp⟩
  have h0 := UInt8.not_lt.mp hb
  have hrange : ∀ {x lo hi : UInt8}, ¬ (x < lo ∨ hi < x) → lo ≤ x ∧ x ≤ hi := fun h =>
    ⟨UInt8.not_lt.mp fun hlt => h (.inl hlt), UInt8.not_lt.mp fun hlt => h (.inr hlt)⟩
  simp only [decodeRune, if_neg hb]
  split
  · exact .inl rfl
  · next sz lo hi hlead =>
    split
    · next s1 t =>
      split_ifs with h1
      · exact .inl rfl
      · obtain ⟨h1, h1'⟩ := hrange h1
        exact .inr ⟨[b, s1], t, _, rfl, .two h0 hlead h1 h1', by simp⟩
    · next s1 s2 t =>
      split_ifs with h1 h2
      · exact .inl rfl
      · exact .inl rfl
      · obtain ⟨h1, h1'⟩ := hrange h1
        obtain ⟨h2, h2'⟩ := hrange h2
        exact .inr ⟨[b, s1, s2], t, _, rfl, .three h0 hlead h1 h1' h2 h2', by simp⟩
    · next s1 s2 s3 t =>
      split_ifs with h1 h2 h3
      · exact .inl rfl
      · exact .inl rfl
      · exact .inl rfl
      · obtain ⟨h1, h1'⟩ := hrange h1
        obtain ⟨h2, h2'⟩ := hrange h2
        obtain ⟨h3, h3'⟩ := hrange h3
        exact .inr ⟨[b, s1, s2, s3], t, _, rfl, .four h0 hlead h1 h1' h2 h2' h3 h3', by simp⟩
    · exact .inl rfl

/-- A byte of ASCII is never an error. -/
theorem le_of_decodeRune_error (h : decodeRune (b :: s) = (runeError, 1)) : 0x80 ≤ b := by
  refine UInt8.not_lt.mp fun hlt => ?_
  rw [decodeRune_of_lt hlt] at h
  have hb := congrArg Prod.fst h
  simp only [UInt8.lt_iff_toNat_lt, runeError, UInt8.reduceToNat] at hlt hb
  omega

/-- The rows of the table of lead bytes. -/
theorem leadByte_cases {lo hi : UInt8} {sz : ℕ} (h : leadByte b = some (sz, lo, hi)) :
    0x80 ≤ lo.toNat ∧ hi.toNat ≤ 0xBF ∧
      ((sz = 2 ∧ 0xC2 ≤ b.toNat ∧ b.toNat ≤ 0xDF) ∨
        (sz = 3 ∧ 0xE0 ≤ b.toNat ∧ b.toNat ≤ 0xEF ∧ (b.toNat = 0xE0 → 0xA0 ≤ lo.toNat) ∧
          (b.toNat = 0xED → hi.toNat ≤ 0x9F)) ∨
        (sz = 4 ∧ 0xF0 ≤ b.toNat ∧ b.toNat ≤ 0xF4 ∧ (b.toNat = 0xF0 → 0x90 ≤ lo.toNat) ∧
          (b.toNat = 0xF4 → hi.toNat ≤ 0x8F))) := by
  simp only [leadByte, UInt8.le_iff_toNat_le, ← UInt8.toNat_inj, UInt8.reduceToNat] at h
  split_ifs at h <;> simp only [Option.some.injEq, Prod.mk.injEq] at h <;>
    obtain ⟨rfl, rfl, rfl⟩ := h <;> simp <;> omega

/-- A byte is known by its value. -/
theorem toUInt8_eq {n : ℕ} {c : UInt8} (h : n = c.toNat) : n.toUInt8 = c := by
  rw [h]
  exact UInt8.ofNat_toNat

theorem encodeRune_two (h : 0x80 ≤ r) (h' : r ≤ 0x7FF) :
    encodeRune r = [(0xC0 + r / 64).toUInt8, (0x80 + r % 64).toUInt8] := by
  have hsurr : ¬ (0x10FFFF < r ∨ (0xD800 ≤ r ∧ r ≤ 0xDFFF)) := by omega
  simp only [encodeRune, if_neg hsurr]
  rw [if_neg (by omega), if_pos h']

theorem encodeRune_three (h : 0x800 ≤ r) (h' : r ≤ 0xFFFF)
    (hsurr : ¬ (0xD800 ≤ r ∧ r ≤ 0xDFFF)) :
    encodeRune r = [(0xE0 + r / 4096).toUInt8, (0x80 + r / 64 % 64).toUInt8,
      (0x80 + r % 64).toUInt8] := by
  have hsurr : ¬ (0x10FFFF < r ∨ (0xD800 ≤ r ∧ r ≤ 0xDFFF)) := by omega
  simp only [encodeRune, if_neg hsurr]
  rw [if_neg (by omega), if_neg (by omega), if_pos h']

theorem encodeRune_four (h : 0x10000 ≤ r) (h' : r ≤ 0x10FFFF) :
    encodeRune r = [(0xF0 + r / 262144).toUInt8, (0x80 + r / 4096 % 64).toUInt8,
      (0x80 + r / 64 % 64).toUInt8, (0x80 + r % 64).toUInt8] := by
  have hsurr : ¬ (0x10FFFF < r ∨ (0xD800 ≤ r ∧ r ≤ 0xDFFF)) := by omega
  simp only [encodeRune, if_neg hsurr]
  rw [if_neg (by omega), if_neg (by omega), if_neg (by omega)]

/-- **An encoding is what its rune is encoded in.** -/
theorem Decodes.encodeRune_eq (h : Decodes u r) : encodeRune r = u := by
  cases h with
  | one hb => exact encodeRune_of_lt hb
  | @two s0 s1 lo hi h0 hlead h1 h1' =>
    obtain ⟨hlo, hhi, hsz⟩ := leadByte_cases hlead
    simp only [continuation, UInt8.le_iff_toNat_le, UInt8.reduceToNat] at *
    rw [encodeRune_two (by omega) (by omega), toUInt8_eq (c := s0) (by omega),
      toUInt8_eq (c := s1) (by omega)]
  | @three s0 s1 s2 lo hi h0 hlead h1 h1' h2 h2' =>
    obtain ⟨hlo, hhi, hsz⟩ := leadByte_cases hlead
    simp only [continuation, UInt8.le_iff_toNat_le, UInt8.reduceToNat] at *
    rw [encodeRune_three (by omega) (by omega) (by omega), toUInt8_eq (c := s0) (by omega),
      toUInt8_eq (c := s1) (by omega), toUInt8_eq (c := s2) (by omega)]
  | @four s0 s1 s2 s3 lo hi h0 hlead h1 h1' h2 h2' h3 h3' =>
    obtain ⟨hlo, hhi, hsz⟩ := leadByte_cases hlead
    simp only [continuation, UInt8.le_iff_toNat_le, UInt8.reduceToNat] at *
    rw [encodeRune_four (by omega) (by omega), toUInt8_eq (c := s0) (by omega),
      toUInt8_eq (c := s1) (by omega), toUInt8_eq (c := s2) (by omega),
      toUInt8_eq (c := s3) (by omega)]

theorem Decodes.ne_nil (h : Decodes u r) : u ≠ [] := by
  cases h <;> simp

/-- No encoding is of a surrogate. -/
theorem Decodes.not_surrogate (h : Decodes u r) : ¬ (0xD800 ≤ r ∧ r < 0xE000) := by
  cases h with
  | one hb =>
    rw [UInt8.lt_iff_toNat_lt] at hb
    have : (0x80 : UInt8).toNat = 128 := rfl
    omega
  | two h0 hlead h1 h1' =>
    simp only [continuation]
    omega
  | @three s0 s1 s2 lo hi h0 hlead h1 h1' h2 h2' =>
    -- the table keeps the second byte after 0xED below the surrogates
    obtain ⟨hlo, hhi, hsz⟩ := leadByte_cases hlead
    simp only [continuation, UInt8.le_iff_toNat_le, UInt8.reduceToNat] at *
    omega
  | @four s0 s1 s2 s3 lo hi h0 hlead h1 h1' h2 h2' h3 h3' =>
    obtain ⟨hlo, hhi, hsz⟩ := leadByte_cases hlead
    simp only [continuation, UInt8.le_iff_toNat_le, UInt8.reduceToNat] at *
    omega

theorem toNat_toUInt8 (h : n < 256) : n.toUInt8.toNat = n := by
  show n % 256 = n
  omega

/-- What may follow the lead byte of an encoding of two bytes, of three or of four. -/
theorem leadByte_two {m : ℕ} (h : 0xC2 ≤ m) (h' : m ≤ 0xDF) :
    leadByte m.toUInt8 = some (2, 0x80, 0xBF) := by
  have hm : m.toUInt8.toNat = m := toNat_toUInt8 (by omega)
  rw [leadByte, if_pos]
  simp only [UInt8.le_iff_toNat_le, UInt8.reduceToNat, hm]
  omega

theorem leadByte_three {m x : ℕ} (h : 0xE0 ≤ m) (h' : m ≤ 0xEF) (hx : 0x80 ≤ x) (hx' : x ≤ 0xBF)
    (hlo : m = 0xE0 → 0xA0 ≤ x) (hhi : m = 0xED → x ≤ 0x9F) :
    ∃ lo hi, leadByte m.toUInt8 = some (3, lo, hi) ∧ lo ≤ x.toUInt8 ∧ x.toUInt8 ≤ hi := by
  have hm : m.toUInt8.toNat = m := toNat_toUInt8 (by omega)
  simp only [leadByte, UInt8.le_iff_toNat_le, ← UInt8.toNat_inj, UInt8.reduceToNat, hm,
    toNat_toUInt8 (show x < 256 by omega)]
  split_ifs
  all_goals first
    | omega
    | refine ⟨_, _, rfl, ?_, ?_⟩ <;> simp only [UInt8.reduceToNat] <;> omega

theorem leadByte_four {m x : ℕ} (h : 0xF0 ≤ m) (h' : m ≤ 0xF4) (hx : 0x80 ≤ x) (hx' : x ≤ 0xBF)
    (hlo : m = 0xF0 → 0x90 ≤ x) (hhi : m = 0xF4 → x ≤ 0x8F) :
    ∃ lo hi, leadByte m.toUInt8 = some (4, lo, hi) ∧ lo ≤ x.toUInt8 ∧ x.toUInt8 ≤ hi := by
  have hm : m.toUInt8.toNat = m := toNat_toUInt8 (by omega)
  simp only [leadByte, UInt8.le_iff_toNat_le, ← UInt8.toNat_inj, UInt8.reduceToNat, hm,
    toNat_toUInt8 (show x < 256 by omega)]
  split_ifs
  all_goals first
    | omega
    | refine ⟨_, _, rfl, ?_, ?_⟩ <;> simp only [UInt8.reduceToNat] <;> omega

theorem le_toUInt8 {m : ℕ} (h : c.toNat ≤ m) (hm : m < 256) : c ≤ m.toUInt8 := by
  rw [UInt8.le_iff_toNat_le, toNat_toUInt8 hm]
  exact h

theorem toUInt8_le {m : ℕ} (h : m ≤ c.toNat) : m.toUInt8 ≤ c := by
  rw [UInt8.le_iff_toNat_le, toNat_toUInt8 (Nat.lt_of_le_of_lt h c.toNat_lt)]
  exact h

theorem continuation_toUInt8 {k : ℕ} (h : k < 64) : continuation (0x80 + k).toUInt8 = k := by
  rw [continuation, toNat_toUInt8 (by omega)]
  omega

/-- **Every rune that is no surrogate** has an encoding. -/
theorem exists_decodes (h : r ≤ 0x10FFFF) (hs : ¬ (0xD800 ≤ r ∧ r < 0xE000)) :
    ∃ u, Decodes u r := by
  have hcont : ∀ k < 64, (0x80 : UInt8) ≤ (0x80 + k).toUInt8 ∧ (0x80 + k).toUInt8 ≤ 0xBF :=
    fun k hk => ⟨le_toUInt8 (Nat.le_add_right _ _) (by omega), toUInt8_le (by
      show 128 + k ≤ 191
      omega)⟩
  by_cases h1 : r < 0x80
  · have hone := Decodes.one (b := r.toUInt8) (by
      rw [UInt8.lt_iff_toNat_lt, toNat_toUInt8 (by omega)]
      exact h1)
    rw [toNat_toUInt8 (by omega)] at hone
    exact ⟨_, hone⟩
  -- the last byte is the same for all the others
  have hsecond := hcont (r % 64) (by omega)
  by_cases h2 : r < 0x800
  · have hlead : 0x80 ≤ (0xC0 + r / 64).toUInt8 := le_toUInt8 (show 128 ≤ _ by omega) (by omega)
    have htwo := Decodes.two hlead (leadByte_two (by omega) (by omega)) hsecond.1 hsecond.2
    rw [toNat_toUInt8 (by omega), continuation_toUInt8 (by omega)] at htwo
    have hr : (0xC0 + r / 64) % 32 * 64 + r % 64 = r := by omega
    exact ⟨_, hr ▸ htwo⟩
  have hthird := hcont (r / 64 % 64) (by omega)
  by_cases h3 : r < 0x10000
  · obtain ⟨lo, hi, hlead, hlo, hhi⟩ := leadByte_three (m := 0xE0 + r / 4096)
      (x := 0x80 + r / 64 % 64) (by omega) (by omega) (by omega) (by omega) (by omega) (by omega)
    have hthree := Decodes.three (le_toUInt8 (show 128 ≤ _ by omega) (by omega)) hlead hlo hhi
      hsecond.1 hsecond.2
    rw [toNat_toUInt8 (by omega), continuation_toUInt8 (by omega), continuation_toUInt8 (by omega)]
      at hthree
    have hr : (0xE0 + r / 4096) % 16 * 4096 + r / 64 % 64 * 64 + r % 64 = r := by omega
    exact ⟨_, hr ▸ hthree⟩
  · obtain ⟨lo, hi, hlead, hlo, hhi⟩ := leadByte_four (m := 0xF0 + r / 262144)
      (x := 0x80 + r / 4096 % 64) (by omega) (by omega) (by omega) (by omega) (by omega) (by omega)
    have hfour := Decodes.four (le_toUInt8 (show 128 ≤ _ by omega) (by omega)) hlead hlo hhi
      hthird.1 hthird.2 hsecond.1 hsecond.2
    rw [toNat_toUInt8 (by omega), continuation_toUInt8 (by omega), continuation_toUInt8 (by omega),
      continuation_toUInt8 (by omega)] at hfour
    have hr : (0xF0 + r / 262144) % 8 * 262144 + r / 4096 % 64 * 4096 + r / 64 % 64 * 64 + r % 64 =
        r := by omega
    exact ⟨_, hr ▸ hfour⟩

/-- An encoding that is not one byte of ASCII has no byte of ASCII in it. -/
theorem Decodes.not_ascii (h : Decodes u r) : (∃ b, b < 0x80 ∧ u = [b]) ∨ ∀ x ∈ u, 0x80 ≤ x := by
  by_cases hr : r < 0x80
  · -- the lead bytes of longer encodings leave no room for a rune of ASCII
    cases h with
    | one hb => exact .inl ⟨_, hb, rfl⟩
    | @two s0 s1 lo hi h0 hlead h1 h1' =>
      obtain ⟨hlo, hhi, hsz⟩ := leadByte_cases hlead
      simp only [continuation] at hr
      omega
    | @three s0 s1 s2 lo hi h0 hlead h1 h1' h2 h2' =>
      obtain ⟨hlo, hhi, hsz⟩ := leadByte_cases hlead
      simp only [continuation, UInt8.le_iff_toNat_le] at *
      omega
    | @four s0 s1 s2 s3 lo hi h0 hlead h1 h1' h2 h2' h3 h3' =>
      obtain ⟨hlo, hhi, hsz⟩ := leadByte_cases hlead
      simp only [continuation, UInt8.le_iff_toNat_le] at *
      omega
  · rw [← h.encodeRune_eq]
    exact .inr (encodeRune_of_le (Nat.not_lt.mp hr))

/-! ### Strings -/

/-- **Induction on the runes of a string**: a byte that is no part of a rune, or the
encoding of one. -/
theorem runeInduction {P : GoString → Prop} (nil : P [])
    (error : ∀ b s, decodeRune (b :: s) = (runeError, 1) → P s → P (b :: s))
    (rune : ∀ u r s, Decodes u r → P s → P (u ++ s)) (s : GoString) : P s := by
  induction hn : s.length using Nat.strongRecOn generalizing s with
  | ind n ih =>
    cases s with
    | nil => exact nil
    | cons b s =>
      rcases decodeRune_cases b s with herr | ⟨u, t, r, hus, hu, hne⟩
      · refine error b s herr (ih s.length ?_ s rfl)
        rw [← hn]
        exact Nat.lt_succ_self _
      · rw [hus]
        refine rune u r t hu (ih t.length ?_ t rfl)
        have hpos := List.length_pos_iff.mpr hne
        rw [← hn, hus, List.length_append]
        omega

/-- The loop of `[]rune(s)`, with the number of bytes that belong to the last rune. -/
def runesLoop : ℕ → GoString → List ℕ
  | _, [] => []
  | skip + 1, _ :: s => runesLoop skip s
  | 0, b :: s => (decodeRune (b :: s)).1 :: runesLoop ((decodeRune (b :: s)).2 - 1) s

/-- `string([]rune(s))`: the runes of a string, encoded again. -/
def toValid (s : GoString) : GoString := (runesLoop 0 s).flatMap encodeRune

/-- A string that is a sequence of encodings. -/
inductive IsUtf8 : GoString → Prop
  | nil : IsUtf8 []
  | append {u s : GoString} {r : ℕ} (hu : Decodes u r) (hs : IsUtf8 s) : IsUtf8 (u ++ s)

theorem runesLoop_drop (k : ℕ) (s : GoString) : runesLoop k s = runesLoop 0 (s.drop k) := by
  induction s generalizing k with
  | nil => simp [runesLoop]
  | cons b s ih =>
    cases k with
    | zero => rfl
    | succ k => exact ih k

theorem toValid_error (h : decodeRune (b :: s) = (runeError, 1)) :
    toValid (b :: s) = encodeRune runeError ++ toValid s := by
  rw [toValid, runesLoop, h, List.flatMap_cons]
  rfl

theorem toValid_append (h : Decodes u r) (s : GoString) : toValid (u ++ s) = u ++ toValid s := by
  obtain ⟨b, t, rfl⟩ : ∃ b t, u = b :: t := by cases h <;> exact ⟨_, _, rfl⟩
  have hdec := h.decodeRune_eq s
  rw [List.cons_append] at hdec ⊢
  rw [toValid, runesLoop, hdec, List.flatMap_cons, h.encodeRune_eq, runesLoop_drop]
  simp [toValid]

theorem length_le_toValid (s : GoString) : s.length ≤ (toValid s).length := by
  induction s using runeInduction with
  | nil => exact Nat.le_refl _
  | error b s h ih =>
    rw [toValid_error h, List.length_append, List.length_cons]
    have hthree : (encodeRune runeError).length = 3 := rfl
    omega
  | rune u r s h ih =>
    rw [toValid_append h, List.length_append, List.length_append]
    omega

/-- **A string is its own runes encoded again** exactly when it is UTF-8. -/
theorem toValid_eq_iff (s : GoString) : toValid s = s ↔ IsUtf8 s := by
  constructor
  · intro heq
    induction s using runeInduction with
    | nil => exact .nil
    | error b s h ih =>
      -- the byte has become three
      have hlen := congrArg List.length heq
      have hle := length_le_toValid s
      have hthree : (encodeRune runeError).length = 3 := rfl
      rw [toValid_error h, List.length_append, List.length_cons] at hlen
      omega
    | rune u r s h ih =>
      rw [toValid_append h] at heq
      exact .append h (ih (List.append_cancel_left heq))
  · intro hs
    induction hs with
    | nil => rfl
    | append hu _ ih => rw [toValid_append hu, ih]

end PluginsDatastore
