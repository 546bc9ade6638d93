import PluginsDatastore.Go.Lexemes
import PluginsDatastore.Go.Remaining

/-!
# The texts that `checkValid` accepts

`checkValid` accepts a text exactly when the grammar of JSON derives it
(`checkValid_iff`). That what it accepts is derived is `mem_remaining_of_checkLoop`. Here
is the other direction: each part of a derivation leads the scanner on to what comes
after that part (`Leads`), by induction on the derivation.
-/

namespace PluginsDatastore

open Words Computability Scanner

/-- A step, a stack and a text: where a check has got to. -/
structure Place where
  step : Step
  stack : List ParseState
  text : GoString

/-- The check at one place is the check at a later one, however the scanner has counted
the bytes. -/
def Leads (x y : Place) : Prop :=
  ∀ s : Scanner, ∃ s' : Scanner,
    checkLoop (s.goto x.step x.stack) x.text = checkLoop (s'.goto y.step y.stack) y.text

variable {x y z : Place} {q q' : Step} {ps ps' : List ParseState} {c : UInt8} {w u v r : GoString}

theorem Leads.refl (x : Place) : Leads x x := fun s => ⟨s, rfl⟩

theorem Leads.trans (hxy : Leads x y) (hyz : Leads y z) : Leads x z := by
  intro s
  obtain ⟨s₁, h₁⟩ := hxy s
  obtain ⟨s₂, h₂⟩ := hyz s₁
  exact ⟨s₂, h₁.trans h₂⟩

/-- One byte leads on. -/
theorem leads_cons (op : ScanCode) (hop : op ≠ .scanError)
    (h : ∀ s : Scanner, (s.goto q ps).next c = (op, s.goto q' ps')) :
    Leads ⟨q, ps, c :: w⟩ ⟨q', ps', w⟩ := by
  intro s
  refine ⟨{ s with bytes := s.bytes + 1 }, ?_⟩
  have hnext := h { s with bytes := s.bytes + 1 }
  rw [checkLoop_cons]
  change (let r := (({ s with bytes := s.bytes + 1 } : Scanner).goto q ps).next c
    if r.1 = .scanError then r.2.err else checkLoop r.2 w) = _
  rw [hnext]
  exact if_neg hop

/-- A byte that leads to the same from two steps. -/
theorem leads_congr (hnext : ∀ s : Scanner, (s.goto q ps).next c = (s.goto q' ps).next c) :
    Leads ⟨q, ps, c :: w⟩ ⟨q', ps, c :: w⟩ := by
  intro s
  refine ⟨s, ?_⟩
  have h := hnext { s with bytes := s.bytes + 1 }
  rw [checkLoop_cons, checkLoop_cons]
  change (let r := (({ s with bytes := s.bytes + 1 } : Scanner).goto q ps).next c
    if r.1 = .scanError then r.2.err else checkLoop r.2 w) = _
  rw [h]
  rfl

/-! ### Lexemes and white space -/

/-- White space leads from a step that skips it to the same step. -/
theorem leads_ws (op : ScanCode) (hop : op ≠ .scanError)
    (hskip : ∀ (s : Scanner) (c : UInt8), isSpace c →
      (s.goto q ps).next c = (op, s.goto q ps)) (hw : w ∈ Json.ws) :
    Leads ⟨q, ps, w ++ r⟩ ⟨q, ps, r⟩ := by
  obtain ⟨l, rfl, hl⟩ := hw
  induction l with
  | nil => exact .refl _
  | cons v l ih =>
    rw [List.forall_mem_cons] at hl
    obtain ⟨⟨c, hc, rfl⟩, hl⟩ := hl
    exact (leads_cons op hop fun s => hskip s c hc).trans (ih hl)

/-- What may follow a value: the end of the text, or a byte that ends a number. -/
def Terminates (r : GoString) : Prop := ∀ c ∈ r.head?, isTerminator c

theorem leads_path (h : Path keeps q w q') : Leads ⟨q, ps, w ++ r⟩ ⟨q', ps, r⟩ := by
  induction h with
  | nil q => exact .refl _
  | cons hmove h ih =>
    exact (leads_cons .scanContinue (by decide) fun s => hmove s ps).trans ih

/-- The rest of a lexeme leads to the end of it. -/
theorem leads_lexeme (hw : w ∈ lexemes q) (hr : Terminates r) :
    Leads ⟨q, ps, w ++ r⟩ ⟨.endValue, ps, r⟩ := by
  obtain ⟨q', hq', hw⟩ := hw
  refine (leads_path hw).trans ?_
  cases r with
  | nil =>
    intro s
    refine ⟨s, ?_⟩
    rw [checkLoop_nil, checkLoop_nil, eof_of_ended hq']
  | cons c r => exact leads_congr fun s => next_of_ended hq' (hr c rfl)

/-- A lexeme leads from where a value begins to where it ends. -/
theorem leads_literal (hw : w ∈ literals) (hq : BeginsValue q) (hr : Terminates r) :
    Leads ⟨q, ps, w ++ r⟩ ⟨.endValue, ps, r⟩ := by
  obtain ⟨c, q', l, rfl, hc, hl⟩ := hw
  exact (leads_cons .scanBeginLiteral (by decide) fun s =>
    opens_of_beginsValue hc hq s ps).trans (leads_lexeme hl hr)

theorem leads_quoted (hq : q = .beginString ∨ q = .beginStringOrEmpty) (hs : w ∈ Json.chars) :
    Leads ⟨q, ps, [0x22] ++ w ++ [0x22] ++ r⟩ ⟨.endValue, ps, r⟩ := by
  have hbegin : ∀ s : Scanner,
      (s.goto q ps).next 0x22 = (.scanBeginLiteral, s.goto .inString ps) := by
    rcases hq with rfl | rfl
    · exact fun _ => rfl
    · exact fun _ => rfl
  have hpath : Path keeps .inString (w ++ [0x22]) .endValue :=
    chars_quote_le_paths (Language.append_mem_mul hs (singleton_mem_letters.mpr rfl))
  rw [List.append_assoc [0x22] w]
  exact (leads_cons .scanBeginLiteral (by decide) hbegin).trans (leads_path hpath)

/-! ### The derivation -/

/-- After the last bracket the scanner is where it is after any value. -/
theorem leads_close (op : ScanCode) (hop : op ≠ .scanError)
    (h : ∀ s : Scanner, (s.goto q ps).next c = (op, s.close ps')) :
    Leads ⟨q, ps, c :: r⟩ ⟨.endValue, ps', r⟩ := by
  refine (leads_cons op hop h).trans ?_
  cases ps' with
  | nil =>
    cases r with
    | nil => exact fun s => ⟨s, rfl⟩
    | cons c r => exact leads_congr fun _ => rfl
  | cons p ps' => exact .refl _

theorem leads_beginArray (hq : BeginsValue q) :
    Leads ⟨q, ps, beginArray :: w⟩ ⟨.beginValueOrEmpty, .parseArrayValue :: ps, w⟩ :=
  leads_cons .scanBeginArray (by decide) fun s =>
    (next_of_beginsValue hq (by decide) (by decide)).trans (next_beginArray s)

theorem leads_beginObject (hq : BeginsValue q) :
    Leads ⟨q, ps, beginObject :: w⟩ ⟨.beginStringOrEmpty, .parseObjectKey :: ps, w⟩ :=
  leads_cons .scanBeginObject (by decide) fun s =>
    (next_of_beginsValue hq (by decide) (by decide)).trans (next_beginObject s)

theorem leads_endArray (hq : q = .endValue ∨ q = .beginValueOrEmpty) :
    Leads ⟨q, .parseArrayValue :: ps, endArray :: r⟩ ⟨.endValue, ps, r⟩ :=
  leads_close .scanEndArray (by decide) fun s => next_endArray s hq

theorem leads_endObject :
    Leads ⟨.endValue, .parseObjectValue :: ps, endObject :: r⟩ ⟨.endValue, ps, r⟩ :=
  leads_close .scanEndObject (by decide) fun s => next_endObject s

theorem leads_emptyObject :
    Leads ⟨.beginStringOrEmpty, .parseObjectKey :: ps, endObject :: r⟩ ⟨.endValue, ps, r⟩ :=
  leads_close .scanEndObject (by decide) fun s => next_emptyObject s

theorem leads_arrayComma :
    Leads ⟨.endValue, .parseArrayValue :: ps, 0x2C :: w⟩ ⟨.beginValue, .parseArrayValue :: ps, w⟩ :=
  leads_cons .scanArrayValue (by decide) fun s => next_arrayComma s

theorem leads_objectComma :
    Leads ⟨.endValue, .parseObjectValue :: ps, 0x2C :: w⟩
      ⟨.beginString, .parseObjectKey :: ps, w⟩ :=
  leads_cons .scanObjectValue (by decide) fun s => next_objectComma s

theorem leads_colon :
    Leads ⟨.endValue, .parseObjectKey :: ps, 0x3A :: w⟩
      ⟨.beginValue, .parseObjectValue :: ps, w⟩ :=
  leads_cons .scanObjectKey (by decide) fun s => next_colon s

/-- What each part of a derivation leads to. -/
def LeadsPart : Json.Part → GoString → Prop
  | .value _, w => ∀ q ps r, BeginsValue q → Terminates r →
    Leads ⟨q, ps, w ++ r⟩ ⟨.endValue, ps, r⟩
  | .elements _, w => ∀ q ps r, BeginsValue q →
    Leads ⟨q, .parseArrayValue :: ps, w ++ endArray :: r⟩ ⟨.endValue, ps, r⟩
  | .members _, w => ∀ q ps r, q = .beginString ∨ q = .beginStringOrEmpty →
    Leads ⟨q, .parseObjectKey :: ps, w ++ endObject :: r⟩ ⟨.endValue, ps, r⟩

/-- White space before a value, or after the bracket that opens an array. -/
theorem leads_ws_value (hq : BeginsValue q) (hw : w ∈ Json.ws) :
    Leads ⟨q, ps, w ++ r⟩ ⟨q, ps, r⟩ := by
  refine leads_ws .scanSkipSpace (by decide) (fun s c hc => ?_) hw
  rcases hq with rfl | rfl
  · exact if_pos hc
  · exact if_pos hc

theorem leads_ws_string (hq : q = .beginString ∨ q = .beginStringOrEmpty) (hw : w ∈ Json.ws) :
    Leads ⟨q, ps, w ++ r⟩ ⟨q, ps, r⟩ := by
  refine leads_ws .scanSkipSpace (by decide) (fun s c hc => ?_) hw
  rcases hq with rfl | rfl
  · exact if_pos hc
  · exact if_pos hc

theorem leads_ws_end {p : ParseState} (hw : w ∈ Json.ws) :
    Leads ⟨.endValue, p :: ps, w ++ r⟩ ⟨.endValue, p :: ps, r⟩ :=
  leads_ws .scanSkipSpace (by decide) (fun s _ hc => stateEndValue_space s (by decide) hc p) hw

/-- White space and a byte that ends a number end a number. -/
theorem terminates_ws (hw : w ∈ Json.ws) (hc : isTerminator c) (r : GoString) :
    Terminates (w ++ c :: r) := by
  obtain ⟨l, rfl, hl⟩ := hw
  intro c' hc'
  cases l with
  | nil =>
    obtain rfl : c = c' := by simpa using hc'
    exact hc
  | cons v l =>
    obtain ⟨b, hb, rfl⟩ := hl v (List.mem_cons_self ..)
    obtain rfl : b = c' := by simpa using hc'
    exact .inl hb

theorem terminates_of_mem_ws (hw : w ∈ Json.ws) : Terminates w := by
  obtain ⟨l, rfl, hl⟩ := hw
  intro c' hc'
  cases l with
  | nil => cases hc'
  | cons v l =>
    obtain ⟨b, hb, rfl⟩ := hl v (List.mem_cons_self ..)
    obtain rfl : b = c' := by simpa using hc'
    exact .inl hb

/-- White space after the value of a text. -/
theorem leads_ws_top (hw : w ∈ Json.ws) : Leads ⟨.endValue, [], w⟩ ⟨.endTop, [], []⟩ := by
  have htop : Leads ⟨.endTop, [], w ++ []⟩ ⟨.endTop, [], []⟩ :=
    leads_ws .scanEnd (by decide) (fun _ _ hc => congrArg (Prod.mk _) (if_pos hc)) hw
  rw [List.append_nil] at htop
  refine Leads.trans ?_ htop
  cases w with
  | nil => exact fun s => ⟨s, rfl⟩
  | cons c w => exact leads_congr fun _ => rfl

/-- The name of a member leads to where its value begins. -/
theorem leads_name {w₀ w₁ w₂ : GoString} (hq : q = .beginString ∨ q = .beginStringOrEmpty)
    (hw₀ : w₀ ∈ Json.ws) (hk : v ∈ Json.chars) (hw₁ : w₁ ∈ Json.ws) (hw₂ : w₂ ∈ Json.ws) :
    Leads ⟨q, .parseObjectKey :: ps, w₀ ++ ([0x22] ++ v ++ [0x22]) ++ w₁ ++ [0x3A] ++ w₂ ++ r⟩
      ⟨.beginValue, .parseObjectValue :: ps, r⟩ := by
  have hcolon : Leads ⟨.endValue, .parseObjectKey :: ps, w₁ ++ 0x3A :: (w₂ ++ r)⟩
      ⟨.beginValue, .parseObjectValue :: ps, r⟩ :=
    (leads_ws_end hw₁).trans (leads_colon.trans (leads_ws_value (.inl rfl) hw₂))
  have hname := (leads_ws_string hq hw₀).trans ((leads_quoted hq hk).trans hcolon)
  simp only [List.append_assoc] at hname ⊢
  exact hname

/-- **Every part of a derivation leads on** to what comes after it. -/
theorem leadsPart_of_spells {part : Json.Part} {ns : Json.Numbers} (h : Json.Spells part w ns) :
    LeadsPart part w := by
  induction h with
  | null => exact fun q ps r hq hr => leads_literal null_mem_literals hq hr
  | true => exact fun q ps r hq hr => leads_literal true_mem_literals hq hr
  | false => exact fun q ps r hq hr => leads_literal false_mem_literals hq hr
  | number hn => exact fun q ps r hq hr => leads_literal (number_le_literals hn) hq hr
  | string hs =>
    intro q ps r hq hr
    exact leads_literal (quoted_le_literals (Json.quoted_of_chars hs)) hq hr
  | emptyArray hw =>
    intro q ps r hq hr
    rw [List.append_assoc, List.append_assoc]
    refine (leads_beginArray hq).trans ?_
    exact (leads_ws_value (.inr rfl) hw).trans (leads_endArray (.inr rfl))
  | array hu ih =>
    intro q ps r hq hr
    rw [List.append_assoc, List.append_assoc]
    exact (leads_beginArray hq).trans (ih .beginValueOrEmpty ps r (.inr rfl))
  | emptyObject hw =>
    intro q ps r hq hr
    rw [List.append_assoc, List.append_assoc]
    refine (leads_beginObject hq).trans ?_
    exact (leads_ws_string (.inr rfl) hw).trans leads_emptyObject
  | object hu ih =>
    intro q ps r hq hr
    rw [List.append_assoc, List.append_assoc]
    exact (leads_beginObject hq).trans (ih .beginStringOrEmpty ps r (.inr rfl))
  | element hw hv hw' ih =>
    intro q ps r hq
    have hr := terminates_ws hw' (.inr (.inr (.inl rfl)) : isTerminator endArray) r
    have hlast := (leads_ws_value hq hw).trans <| (ih q (.parseArrayValue :: ps) _ hq hr).trans <|
      (leads_ws_end hw').trans (leads_endArray (.inl rfl))
    simp only [List.append_assoc] at hlast ⊢
    exact hlast
  | @elements t ts w v w' u ns ns' hw hv hw' hu ihv ihu =>
    intro q ps r hq
    have hr := terminates_ws hw' (.inr (.inl rfl) : isTerminator 0x2C) (u ++ endArray :: r)
    have hmore := (leads_ws_value hq hw).trans <| (ihv q (.parseArrayValue :: ps) _ hq hr).trans <|
      (leads_ws_end hw').trans <| leads_arrayComma.trans (ihu .beginValue ps r (.inl rfl))
    simp only [List.append_assoc] at hmore ⊢
    exact hmore
  | member hw₀ hs hw₁ hw₂ hv hw₃ ih =>
    intro q ps r hq
    have hr := terminates_ws hw₃ (.inr (.inr (.inr (.inl rfl))) : isTerminator endObject) r
    have hlast := (leads_name hq hw₀ hs hw₁ hw₂).trans <|
      (ih .beginValue (.parseObjectValue :: ps) _ (.inl rfl) hr).trans <|
      (leads_ws_end hw₃).trans leads_endObject
    simp only [List.append_assoc] at hlast ⊢
    exact hlast
  | @members s t ms w₀ w₁ w₂ v w₃ u ns ns' hw₀ hs hw₁ hw₂ hv hw₃ hu ihv ihu =>
    intro q ps r hq
    have hr := terminates_ws hw₃ (.inr (.inl rfl) : isTerminator 0x2C) (u ++ endObject :: r)
    have hmore := (leads_name hq hw₀ hs hw₁ hw₂).trans <|
      (ihv .beginValue (.parseObjectValue :: ps) _ (.inl rfl) hr).trans <|
      (leads_ws_end hw₃).trans <| leads_objectComma.trans (ihu .beginString ps r (.inl rfl))
    simp only [List.append_assoc] at hmore ⊢
    exact hmore

/-! ### The check -/

/-- **`checkValid` accepts exactly the texts of the grammar**, whatever was scanned with
the scanner before. -/
theorem checkValid_iff (data : GoString) (scan : Scanner) :
    checkValid data scan = none ↔ data ∈ Json.text := by
  have hreset : scan.reset = scan.goto .beginValue [] := rfl
  rw [checkValid, hreset]
  constructor
  · exact mem_remaining_of_checkLoop (by decide)
  · intro hdata
    obtain ⟨u, hu, t, v, ns, hv, u', hu', rfl⟩ := Json.mem_text.mp hdata
    have hspaced : Leads ⟨.beginValue, [], u ++ v ++ u'⟩ ⟨.endTop, [], []⟩ := by
      rw [List.append_assoc]
      refine (leads_ws_value (.inl rfl) hu).trans ?_
      refine Leads.trans ?_ (leads_ws_top hu')
      exact leadsPart_of_spells hv .beginValue [] u' (.inl rfl) (terminates_of_mem_ws hu')
    obtain ⟨scan', h⟩ := hspaced scan
    rw [h, checkLoop_nil]
    rfl

end PluginsDatastore
