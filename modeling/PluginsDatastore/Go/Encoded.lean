import PluginsDatastore.Go.Decoding

/-!
# What the encoder writes is decoded

`Encodes` says that a text has a derivation, and what it denotes. The encoder of a string
writes one (`encodes_string`), and the encoders of structs and slices make one out of
those of their parts. So what they write is decoded to the value that was encoded, its
strings made UTF-8 (`Encodes.unmarshal_eq`).
-/

namespace PluginsDatastore

open Words Computability

variable {F : Type} {parseFloat : GoString → Option F} {s u w : GoString} {b : UInt8}
  {x : Interface F}

/-! ### Strings -/

theorem chars_append (hu : u ∈ Json.chars) (hw : w ∈ Json.chars) : u ++ w ∈ Json.chars := by
  have h := Language.append_mem_mul hu hw
  rwa [Json.chars, kstar_mul_kstar] at h

theorem unit_le_chars : Json.unescaped + letter 0x5C * Json.escaped ≤ Json.chars := le_kstar

theorem chars_escaped (hu : u ∈ Json.escaped) : 0x5C :: u ∈ Json.chars :=
  unit_le_chars (.inr ⟨[0x5C], ⟨_, rfl, rfl⟩, u, hu, rfl⟩)

theorem chars_unescaped (hu : ∀ c ∈ u, 0x20 ≤ c ∧ c ≠ 0x22 ∧ c ≠ 0x5C) : u ∈ Json.chars := by
  induction u with
  | nil => exact Language.nil_mem_kstar _
  | cons c u ih =>
    rw [List.forall_mem_cons] at hu
    exact chars_append (unit_le_chars (.inl ⟨c, hu.1, rfl⟩)) (ih hu.2)

/-- An escape with digits. -/
theorem chars_digits {a b c d : UInt8} (ha : isHex a) (hb : isHex b) (hc : isHex c) (hd : isHex d) :
    [0x5C, 0x75, a, b, c, d] ∈ Json.chars := by
  refine chars_escaped (.inr ?_)
  exact ⟨_, ⟨_, ⟨_, ⟨[0x75], ⟨_, rfl, rfl⟩, [a], ⟨a, ha, rfl⟩, rfl⟩, [b], ⟨b, hb, rfl⟩, rfl⟩, [c],
    ⟨c, hc, rfl⟩, rfl⟩, [d], ⟨d, hd, rfl⟩, rfl⟩

theorem escapeByte_mem_chars (hb : b < 0x80) : escapeByte b ∈ Json.chars := by
  unfold escapeByte
  split_ifs with hplain hquote hn hr ht
  · refine chars_unescaped ?_
    rintro c hc
    obtain rfl := List.mem_singleton.mp hc
    exact ⟨hplain.1, hplain.2.2.1, hplain.2.1⟩
  · refine chars_escaped (.inl (singleton_mem_letters.mpr ?_))
    rcases hquote with rfl | rfl
    · decide
    · decide
  · exact chars_escaped (.inl (singleton_mem_letters.mpr (by decide)))
  · exact chars_escaped (.inl (singleton_mem_letters.mpr (by decide)))
  · exact chars_escaped (.inl (singleton_mem_letters.mpr (by decide)))
  · have hlt : b.toNat < 128 := hb
    exact chars_digits (by decide) (by decide) (hexDigit_spec (b.toNat / 16) (by omega)).1
      (hexDigit_spec (b.toNat % 16) (by omega)).1

/-- What the encoder writes between quotes is a string of the grammar. -/
theorem encodeStringLoop_mem_chars (s : GoString) : ∀ n, encodeStringLoop n s ∈ Json.chars := by
  induction s using runeInduction with
  | nil =>
    intro n
    cases n <;> exact Language.nil_mem_kstar _
  | error b s h ih =>
    intro n
    cases n with
    | zero => exact Language.nil_mem_kstar _
    | succ n =>
      rw [encodeStringLoop_error h]
      exact chars_append (chars_digits (by decide) (by decide) (by decide) (by decide)) (ih n)
  | rune u r s h ih =>
    intro n
    cases n with
    | zero => exact Language.nil_mem_kstar _
    | succ n =>
      rcases h.not_ascii with ⟨b, hb, rfl⟩ | hu
      · have hloop : encodeStringLoop (n + 1) ([b] ++ s) = escapeByte b ++ encodeStringLoop n s :=
          if_pos hb
        rw [hloop]
        exact chars_append (escapeByte_mem_chars hb) (ih n)
      · rw [encodeStringLoop_rune h hu]
        refine chars_append ?_ (ih n)
        split_ifs with hsep
        · have hhex := (hexDigit_spec (r % 16) (Nat.mod_lt _ (by decide))).1
          exact chars_digits (by decide) (by decide) (by decide) hhex
        · refine chars_unescaped fun c hc => ?_
          have hplain := isPlain_of_le (hu c hc)
          exact ⟨UInt8.not_lt.mp fun h => hplain (.inr (.inr h)),
            fun h => hplain (.inr (.inl h)), fun h => hplain (.inl h)⟩

/-! ### Values -/

/-- **A text spells a value**, without any numbers. -/
def Encodes (parseFloat : GoString → Option F) (w : GoString) (x : Interface F) : Prop :=
  ∃ t, Json.Spells (.value t) w [] ∧ denote parseFloat t = x

/-- What is encoded is decoded, with white space around it or without. -/
theorem Encodes.unmarshal_eq (h : Encodes parseFloat w x) (hu : u ∈ Json.ws) :
    unmarshal parseFloat (w ++ u) = .done x none := by
  obtain ⟨t, hw, rfl⟩ := h
  exact unmarshal_spells parseFloat (Language.nil_mem_kstar _ : [] ∈ Json.ws) hw hu

theorem encodes_null : Encodes parseFloat "null" .nil := ⟨.null, .null, rfl⟩

/-- What is between the quotes that the encoder writes. -/
def encodedBody (s : GoString) : GoString := encodeStringLoop s.length s

theorem unquoted_encodedBody (s : GoString) : unquoted (encodedBody s) = toValid s := by
  rw [unquoted, encodedBody, unquoteLoop_encodeStringLoop s _ le_rfl]
  rfl

theorem encodes_string (s : GoString) :
    Encodes parseFloat (encodeString s) (.string (toValid s)) := by
  refine ⟨.string (encodedBody s), .string (encodeStringLoop_mem_chars s _), ?_⟩
  rw [denote, unquoted_encodedBody]

theorem intercalate_singleton (sep x : GoString) : List.intercalate sep [x] = x := by
  simp [List.intercalate]

theorem intercalate_cons_cons (sep x y : GoString) (l : List GoString) :
    List.intercalate sep (x :: y :: l) = x ++ sep ++ List.intercalate sep (y :: l) := by
  simp [List.intercalate]

/-- The elements of a slice that is not empty. -/
theorem encodes_elements {α : Type} {elemEnc : α → GoString} {f : α → Interface F}
    (h : ∀ a, Encodes parseFloat (elemEnc a) (f a)) (a : α) (l : List α) :
    ∃ ts, Json.Spells (.elements ts) (List.intercalate "," ((a :: l).map elemEnc)) [] ∧
      denoteElems parseFloat ts = (a :: l).map f := by
  have hnil : [] ∈ Json.ws := Language.nil_mem_kstar _
  induction l generalizing a with
  | nil =>
    obtain ⟨t, ht, hdenote⟩ := h a
    refine ⟨[t], ?_, ?_⟩
    · have hspells := Json.Spells.element hnil ht hnil
      rw [List.nil_append, List.append_nil] at hspells
      rw [List.map_singleton, intercalate_singleton]
      exact hspells
    · simp [denoteElems, hdenote]
  | cons a' l ih =>
    obtain ⟨t, ht, hdenote⟩ := h a
    obtain ⟨ts, hts, hdenotes⟩ := ih a'
    refine ⟨t :: ts, ?_, ?_⟩
    · have hspells := Json.Spells.elements hnil ht hnil hts
      rw [List.nil_append, List.append_nil] at hspells
      rw [List.map_cons, List.map_cons, intercalate_cons_cons]
      exact hspells
    · rw [denoteElems, hdenote, hdenotes]
      rfl

theorem encodes_slice {α : Type} {elemEnc : α → GoString} {f : α → Interface F}
    (h : ∀ a, Encodes parseFloat (elemEnc a) (f a)) (l : List α) :
    Encodes parseFloat (encodeSlice elemEnc (.of l)) (.slice (l.map f)) := by
  cases l with
  | nil => exact ⟨.array [], .emptyArray (Language.nil_mem_kstar _), rfl⟩
  | cons a l =>
    obtain ⟨ts, hts, hdenote⟩ := encodes_elements h a l
    refine ⟨.array ts, .array hts, ?_⟩
    rw [denote, hdenote]

/-- The members of a struct that has fields. -/
theorem encodes_members (parseFloat : GoString → Option F) (f : GoString × GoString)
    (fields : List (GoString × GoString)) :
    ∃ ms, Json.Spells (.members ms) (List.intercalate "," ((f :: fields).map fun f =>
        encodeString f.1 ++ (":" : GoString) ++ encodeString f.2)) [] ∧
      ∀ m, denoteMembers parseFloat m ms =
        (f :: fields).foldl (fun m f => setKey m (toValid f.1) (.string (toValid f.2))) m := by
  have hnil : [] ∈ Json.ws := Language.nil_mem_kstar _
  -- one member is a name and a string
  have hdenote : ∀ (f : GoString × GoString) ms m,
      denoteMembers parseFloat m ((encodedBody f.1, .string (encodedBody f.2)) :: ms) =
        denoteMembers parseFloat (setKey m (toValid f.1) (.string (toValid f.2))) ms := by
    intro f ms m
    rw [denoteMembers, denote, unquoted_encodedBody, unquoted_encodedBody]
  have hbody : ∀ s, encodedBody s ∈ Json.chars := fun s => encodeStringLoop_mem_chars s _
  induction fields generalizing f with
  | nil =>
    refine ⟨[(encodedBody f.1, .string (encodedBody f.2))], ?_, fun m => ?_⟩
    · have hspells := Json.Spells.member hnil (hbody f.1) hnil hnil (.string (hbody f.2)) hnil
      rw [List.append_nil, List.append_nil, List.append_nil, List.nil_append] at hspells
      rw [List.map_singleton, intercalate_singleton]
      exact hspells
    · rw [hdenote, denoteMembers, List.foldl_cons, List.foldl_nil]
  | cons f' fields ih =>
    obtain ⟨ms, hms, hdenotes⟩ := ih f'
    refine ⟨(encodedBody f.1, .string (encodedBody f.2)) :: ms, ?_, fun m => ?_⟩
    · have hspells := Json.Spells.members hnil (hbody f.1) hnil hnil (.string (hbody f.2)) hnil hms
      rw [List.append_nil, List.append_nil, List.append_nil, List.nil_append] at hspells
      rw [List.map_cons, List.map_cons, intercalate_cons_cons]
      exact hspells
    · rw [hdenote, hdenotes, List.foldl_cons (f := _)]
      rfl

theorem encodes_struct (parseFloat : GoString → Option F) (f : GoString × GoString)
    (fields : List (GoString × GoString)) :
    Encodes parseFloat (encodeStruct (f :: fields)) (.map ((f :: fields).foldl
      (fun m f => setKey m (toValid f.1) (.string (toValid f.2))) [])) := by
  obtain ⟨ms, hms, hdenote⟩ := encodes_members parseFloat f fields
  refine ⟨.object ms, .object hms, ?_⟩
  rw [denote, hdenote]

end PluginsDatastore
