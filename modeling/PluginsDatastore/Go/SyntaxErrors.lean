import PluginsDatastore.Go.CheckValid

/-!
# Where a syntax error is found

The scanner finds a syntax error at the first byte with which the text is no longer the
beginning of a JSON text, and when there is none, at the end. Before that it can always
be led to the end of a text: by what completes the part it is in (`completion`) and what
closes the arrays and objects it is inside of (`closers`).
-/

namespace PluginsDatastore

open Words Computability Scanner

/-- A text that a JSON text begins with. -/
def Viable (w : GoString) : Prop := ∃ r, w ++ r ∈ Json.text

/-! ### Every scanner can be led to the end of a text -/

/-- A text that completes what the scanner is in the middle of. -/
def completion : Step → GoString
  | .beginValue | .beginValueOrEmpty => "0"
  | .beginString | .beginStringOrEmpty => "\"\""
  | .inString => "\""
  | .inStringEsc => "n\""
  | .inStringEscU => "0000\""
  | .inStringEscU1 => "000\""
  | .inStringEscU12 => "00\""
  | .inStringEscU123 => "0\""
  | .neg | .dot | .e | .eSign => "0"
  | .t => "rue"
  | .tr => "ue"
  | .tru => "e"
  | .f => "alse"
  | .fa => "lse"
  | .fal => "se"
  | .fals => "e"
  | .n => "ull"
  | .nu => "ll"
  | .nul => "l"
  | _ => ""

/-- A text that closes the arrays and objects of a stack. -/
def closers : List ParseState → GoString
  | [] => ""
  | .parseArrayValue :: ps => endArray :: closers ps
  | .parseObjectValue :: ps => endObject :: closers ps
  | .parseObjectKey :: ps => 0x3A :: 0x30 :: endObject :: closers ps

variable {s : Scanner} {q : Step} {ps : List ParseState} {c : UInt8} {w r : GoString}
  {e : SyntaxError}

theorem terminates_closers (ps : List ParseState) : Terminates (closers ps) := by
  intro c hc
  rcases ps with _ | ⟨_ | _ | _, ps⟩
  · cases hc
  · obtain rfl : 0x3A = c := by simpa [closers] using hc
    decide
  · obtain rfl : endObject = c := by simpa [closers] using hc
    decide
  · obtain rfl : endArray = c := by simpa [closers] using hc
    decide

theorem zero_mem_literals : ([0x30] : GoString) ∈ literals :=
  ⟨0x30, .zero, [], rfl, fun _ _ => rfl, one_le_lexemes .zero rfl⟩

theorem leads_closers (ps : List ParseState) :
    Leads ⟨.endValue, ps, closers ps⟩ ⟨.endTop, [], []⟩ := by
  induction ps with
  | nil => exact leads_ws_top (Language.nil_mem_kstar _)
  | cons p ps ih =>
    cases p with
    | parseObjectKey =>
      have hzero : Leads ⟨.beginValue, .parseObjectValue :: ps, [0x30] ++ endObject :: closers ps⟩
          ⟨.endValue, .parseObjectValue :: ps, endObject :: closers ps⟩ :=
        leads_literal zero_mem_literals (.inl rfl)
          (terminates_closers (.parseObjectValue :: ps))
      exact leads_colon.trans (hzero.trans (leads_endObject.trans ih))
    | parseObjectValue => exact leads_endObject.trans ih
    | parseArrayValue => exact (leads_endArray (.inl rfl)).trans ih

/-- The steps inside a lexeme and after one. -/
def Step.InLexeme (q : Step) : Prop :=
  q.Live ∧ q ≠ .endTop ∧ ¬ BeginsValue q ∧ q ≠ .beginString ∧ q ≠ .beginStringOrEmpty

/-- A lexeme that has begun can be completed. -/
theorem completion_mem_lexemes (hq : q.InLexeme) : completion q ∈ lexemes q := by
  obtain ⟨hlive, htop, hvalue, hstring, hempty⟩ := hq
  have hend : ([] : GoString) ∈ lexemes .endValue := one_le_lexemes .endValue rfl
  have hinString : completion .inString ∈ lexemes .inString :=
    keeps_letter _ (by decide) (by decide) (fun _ _ => rfl) hend
  have hu123 : completion .inStringEscU123 ∈ lexemes .inStringEscU123 :=
    keeps_letter _ (by decide) (by decide) (fun _ _ => rfl) hinString
  have hu12 : completion .inStringEscU12 ∈ lexemes .inStringEscU12 :=
    keeps_letter _ (by decide) (by decide) (fun _ _ => rfl) hu123
  have hu1 : completion .inStringEscU1 ∈ lexemes .inStringEscU1 :=
    keeps_letter _ (by decide) (by decide) (fun _ _ => rfl) hu12
  have htru : completion .tru ∈ lexemes .tru :=
    keeps_letter _ (by decide) (by decide) (fun _ _ => rfl) hend
  have htr : completion .tr ∈ lexemes .tr :=
    keeps_letter _ (by decide) (by decide) (fun _ _ => rfl) htru
  have hfals : completion .fals ∈ lexemes .fals :=
    keeps_letter _ (by decide) (by decide) (fun _ _ => rfl) hend
  have hfal : completion .fal ∈ lexemes .fal :=
    keeps_letter _ (by decide) (by decide) (fun _ _ => rfl) hfals
  have hfa : completion .fa ∈ lexemes .fa :=
    keeps_letter _ (by decide) (by decide) (fun _ _ => rfl) hfal
  have hnul : completion .nul ∈ lexemes .nul :=
    keeps_letter _ (by decide) (by decide) (fun _ _ => rfl) hend
  have hnu : completion .nu ∈ lexemes .nu :=
    keeps_letter _ (by decide) (by decide) (fun _ _ => rfl) hnul
  have he0 : ([] : GoString) ∈ lexemes .e0 := one_le_lexemes .e0 rfl
  cases q with
  | beginValueOrEmpty => exact absurd (.inr rfl) hvalue
  | beginValue => exact absurd (.inl rfl) hvalue
  | beginStringOrEmpty => exact absurd rfl hempty
  | beginString => exact absurd rfl hstring
  | endTop => exact absurd rfl htop
  | error => exact absurd rfl hlive.1
  | redo => exact absurd rfl hlive.2
  | endValue => exact hend
  | one => exact one_le_lexemes .one rfl
  | zero => exact one_le_lexemes .zero rfl
  | dot0 => exact one_le_lexemes .dot0 rfl
  | e0 => exact he0
  | inString => exact hinString
  | inStringEsc => exact keeps_letter _ (by decide) (by decide) (fun _ _ => rfl) hinString
  | inStringEscU => exact keeps_letter _ (by decide) (by decide) (fun _ _ => rfl) hu1
  | inStringEscU1 => exact hu1
  | inStringEscU12 => exact hu12
  | inStringEscU123 => exact hu123
  | neg =>
    exact keeps_letter .zero (by decide) (by decide) (fun _ _ => rfl)
      (one_le_lexemes .zero rfl)
  | dot =>
    exact keeps_letter .dot0 (by decide) (by decide) (fun _ _ => rfl)
      (one_le_lexemes .dot0 rfl)
  | e => exact keeps_letter _ (by decide) (by decide) (fun _ _ => rfl) he0
  | eSign => exact keeps_letter _ (by decide) (by decide) (fun _ _ => rfl) he0
  | t => exact keeps_letter _ (by decide) (by decide) (fun _ _ => rfl) htr
  | tr => exact htr
  | tru => exact htru
  | f => exact keeps_letter _ (by decide) (by decide) (fun _ _ => rfl) hfa
  | fa => exact hfa
  | fal => exact hfal
  | fals => exact hfals
  | n => exact keeps_letter _ (by decide) (by decide) (fun _ _ => rfl) hnu
  | nu => exact hnu
  | nul => exact hnul

/-- **A scanner that has found no error** can be led to the end of a text. -/
theorem exists_checkLoop_eq_none (hq : q.Live) (s : Scanner) (ps : List ParseState) :
    ∃ r, checkLoop (s.goto q ps) r = none := by
  by_cases hend : q = .endTop
  · subst hend
    exact ⟨[], checkLoop_nil _⟩
  have hleads : ∃ r, Leads ⟨q, ps, r⟩ ⟨.endTop, [], []⟩ := by
    by_cases hvalue : BeginsValue q
    · exact ⟨_, (leads_literal zero_mem_literals hvalue (terminates_closers ps)).trans
        (leads_closers ps)⟩
    by_cases hstring : q = .beginString ∨ q = .beginStringOrEmpty
    · exact ⟨_, (leads_quoted hstring (Language.nil_mem_kstar _)).trans (leads_closers ps)⟩
    obtain ⟨hstring, hempty⟩ := not_or.mp hstring
    have hmem := completion_mem_lexemes ⟨hq, hend, hvalue, hstring, hempty⟩
    exact ⟨_, (leads_lexeme hmem (terminates_closers ps)).trans (leads_closers ps)⟩
  obtain ⟨r, hr⟩ := hleads
  obtain ⟨s', h⟩ := hr s
  refine ⟨r, h.trans ?_⟩
  rw [checkLoop_nil]
  rfl

/-! ### Errors -/

/-- An error at the end of a text is after all its bytes. -/
theorem offset_eof (hq : q.Live) (h : (s.goto q ps).eof.2.err = some e) : e.offset = s.bytes := by
  have hgoes := goes_next s hq ps ' '.toUInt8
  unfold eof at h
  rw [if_neg (by simp [goto])] at h
  split_ifs at h with htop
  · simp [goto] at h
  · generalize (s.goto q ps).next ' '.toUInt8 = a at h hgoes
    cases hgoes with
    | @stops op s' msg herr hstep =>
      have hne : s'.err ≠ none := herr ▸ Option.some_ne_none _
      simp only [if_neg hne, apply_ite Prod.snd, ite_self] at h
      obtain rfl : _ = e := Option.some.inj (herr.symm.trans h)
      rfl
    | @goes op q' ps' hop hq' hL =>
      have hnone : (s.goto q' ps').err = none := rfl
      simp only [if_pos hnone, apply_ite Prod.snd] at h
      split_ifs at h
      · exact absurd (hnone.symm.trans h) (Option.some_ne_none e).symm
      · obtain rfl : _ = e := Option.some.inj h
        rfl

/-- What an error says about a text, when `n` bytes have been read before it. -/
structure Located (s : Scanner) (w : GoString) (n : ℕ) : Prop where
  le_length : n ≤ w.length
  before : ∀ m < n, ∃ r, checkLoop s (w.take m ++ r) = none
  at_end : (∃ r, checkLoop s (w.take n ++ r) = none) → n = w.length

/-- **An error is found** as soon as no text can follow any more, or at the end. -/
theorem located_of_checkLoop (hq : q.Live) (h : checkLoop (s.goto q ps) w = some e) :
    ∃ n, e.offset = s.bytes + n ∧ Located (s.goto q ps) w n := by
  induction w generalizing s q ps with
  | nil =>
    refine ⟨0, ?_, le_rfl, fun m hm => absurd hm m.not_lt_zero, fun _ => rfl⟩
    rw [checkLoop_nil] at h
    split_ifs at h
    exact offset_eof hq h
  | cons c w ih =>
    have hgoes := goes_next { s with bytes := s.bytes + 1 } hq ps c
    have hcons : ∀ w, checkLoop (s.goto q ps) (c :: w) =
        let r := (({ s with bytes := s.bytes + 1 } : Scanner).goto q ps).next c
        if r.1 = .scanError then r.2.err else checkLoop r.2 w := checkLoop_cons _ c
    rw [hcons] at h
    generalize (({ s with bytes := s.bytes + 1 } : Scanner).goto q ps).next c = a at h hgoes hcons
    cases hgoes with
    | stops herr hstep =>
      -- the byte is refused, now or with the next one
      have hne := herr ▸ Option.some_ne_none _
      simp only [checkLoop_error hne hstep, ite_self] at h hcons
      obtain rfl : _ = e := Option.some.inj (herr.symm.trans h)
      refine ⟨1, rfl, Nat.succ_le_succ (Nat.zero_le _), ?_, ?_⟩
      · intro m hm
        obtain rfl : m = 0 := Nat.lt_one_iff.mp hm
        exact exists_checkLoop_eq_none hq s ps
      · rintro ⟨r, hr⟩
        exact absurd ((hcons _).symm.trans hr) hne
    | @goes op q' ps' hop hq' hL =>
      simp only [if_neg hop] at h hcons
      obtain ⟨n, hn, hlen, hbefore, hend⟩ := ih hq' h
      refine ⟨n + 1, ?_, Nat.succ_le_succ hlen, ?_, ?_⟩
      · rw [hn]
        exact Nat.add_right_comm _ _ _
      · intro m hm
        cases m with
        | zero => exact exists_checkLoop_eq_none hq s ps
        | succ m =>
          obtain ⟨r, hr⟩ := hbefore m (Nat.lt_of_succ_lt_succ hm)
          exact ⟨r, (hcons _).trans hr⟩
      · rintro ⟨r, hr⟩
        exact congrArg Nat.succ (hend ⟨r, (hcons _).symm.trans hr⟩)

/-- **Where the error of `checkValid` is.** Every text shorter than its offset is one that
a JSON text begins with. Up to the offset it is no longer so, unless the text ends there:
then it may be one that has been cut short. -/
theorem checkValid_offset {data : GoString} {scan : Scanner} (h : checkValid data scan = some e) :
    ∃ n ≤ data.length, e.offset = scan.bytes + n ∧ (∀ m < n, Viable (data.take m)) ∧
      (Viable (data.take n) → n = data.length) := by
  have hviable : ∀ w, Viable w ↔ ∃ r, checkLoop (scan.goto .beginValue []) (w ++ r) = none :=
    fun w => exists_congr fun r => (checkValid_iff (w ++ r) scan).symm
  have hlocated : ∃ n, e.offset = scan.bytes + n ∧ Located (scan.goto .beginValue []) data n :=
    located_of_checkLoop (by decide) h
  obtain ⟨n, hn, hlen, hbefore, hend⟩ := hlocated
  exact ⟨n, hlen, hn, fun m hm => (hviable _).mpr (hbefore m hm),
    fun hn => hend ((hviable _).mp hn)⟩

/-- The brace that closes an array is the third byte, and no text begins with it. -/
theorem checkValid_offset_brace :
    ∃ n ≤ 3, 3 = n ∧ (∀ m < n, Viable (("[1\x7d" : GoString).take m)) ∧
      (Viable (("[1\x7d" : GoString).take n) → n = 3) := by
  obtain ⟨n, hlen, hn, hbefore, hend⟩ := checkValid_offset
    (by decide : checkValid "[1\x7d" {} =
      some ⟨"invalid character '\x7d' after array element", 3⟩)
  exact ⟨n, hlen, hn.trans (Nat.zero_add n), hbefore, hend⟩

end PluginsDatastore
