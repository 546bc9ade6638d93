import PluginsDatastore.Go.Decode
import PluginsDatastore.Go.Meaning

/-!
# What a JSON text says to the decoder

`Denotes` is the value that a derivation denotes: a string denotes what it stands for, a
number what `parseFloat` makes of it, and nil if it is refused. Every derivation denotes
one value, and `denote` is that value (`denotes_iff`).

The error that is saved on the way names the first number that is refused, and where it
ends (`firstRefused`).
-/

namespace PluginsDatastore

open Words Computability

variable {s t u w : GoString} {c : UInt8}

/-! ### The value -/

section

variable {F : Type} (parseFloat : GoString → Option F)

mutual

/-- **The value that a tree denotes.** -/
inductive Denotes : Json.Tree → Interface F → Prop
  | null : Denotes .null .nil
  | bool (b : Bool) : Denotes (.bool b) (.bool b)
  | number {n : GoString} {f : F} (h : parseFloat n = some f) : Denotes (.number n) (.number f)
  | refused {n : GoString} (h : parseFloat n = none) : Denotes (.number n) .nil
  | string {s t : GoString} (h : Means s t) : Denotes (.string s) (.string t)
  | array {ts : List Json.Tree} {xs : List (Interface F)} (h : DenotesElems ts xs) :
      Denotes (.array ts) (.slice xs)
  | object {ms : List (GoString × Json.Tree)} {m : List (GoString × Interface F)}
      (h : DenotesMembers [] ms m) : Denotes (.object ms) (.map m)

/-- The values of the elements of an array. -/
inductive DenotesElems : List Json.Tree → List (Interface F) → Prop
  | nil : DenotesElems [] []
  | cons {t : Json.Tree} {ts : List Json.Tree} {x : Interface F} {xs : List (Interface F)}
      (h : Denotes t x) (hs : DenotesElems ts xs) : DenotesElems (t :: ts) (x :: xs)

/-- The entries of a map after the members of an object. The last one of a name counts. -/
inductive DenotesMembers : List (GoString × Interface F) → List (GoString × Json.Tree) →
    List (GoString × Interface F) → Prop
  | nil {m : List (GoString × Interface F)} : DenotesMembers m [] m
  | cons {m m' : List (GoString × Interface F)} {s k : GoString} {t : Json.Tree}
      {x : Interface F} {ms : List (GoString × Json.Tree)} (hk : Means s k) (h : Denotes t x)
      (hs : DenotesMembers (setKey m k x) ms m') : DenotesMembers m ((s, t) :: ms) m'

end

mutual

/-- The value of a tree, with its strings unquoted. -/
def denote : Json.Tree → Interface F
  | .null => .nil
  | .bool b => .bool b
  | .number n => (parseFloat n).elim .nil .number
  | .string s => .string (unquoted s)
  | .array ts => .slice (denoteElems ts)
  | .object ms => .map (denoteMembers [] ms)

@[inherit_doc DenotesElems]
def denoteElems : List Json.Tree → List (Interface F)
  | [] => []
  | t :: ts => denote t :: denoteElems ts

@[inherit_doc DenotesMembers]
def denoteMembers : List (GoString × Interface F) → List (GoString × Json.Tree) →
    List (GoString × Interface F)
  | m, [] => m
  | m, (s, t) :: ms => denoteMembers (setKey m (unquoted s) (denote t)) ms

end

variable {parseFloat}

theorem denotesElems_cons {t : Json.Tree} {ts : List Json.Tree} {xs : List (Interface F)}
    (h : ∀ x, Denotes parseFloat t x ↔ x = denote parseFloat t)
    (hs : ∀ xs, DenotesElems parseFloat ts xs ↔ xs = denoteElems parseFloat ts) :
    DenotesElems parseFloat (t :: ts) xs ↔ xs = denoteElems parseFloat (t :: ts) := by
  constructor
  · rintro (_ | ⟨hx, hxs⟩)
    rw [denoteElems, (h _).mp hx, (hs _).mp hxs]
  · rintro rfl
    exact .cons ((h _).mpr rfl) ((hs _).mpr rfl)

theorem denotesMembers_cons {t : Json.Tree} {ms : List (GoString × Json.Tree)}
    {m m' : List (GoString × Interface F)} (hk : s ∈ Json.chars)
    (h : ∀ x, Denotes parseFloat t x ↔ x = denote parseFloat t)
    (hs : ∀ m m', DenotesMembers parseFloat m ms m' ↔ m' = denoteMembers parseFloat m ms) :
    DenotesMembers parseFloat m ((s, t) :: ms) m' ↔
      m' = denoteMembers parseFloat m ((s, t) :: ms) := by
  constructor
  · rintro (_ | ⟨hk', hx, hms⟩)
    rw [denoteMembers, (hs _ _).mp hms, (means_iff hk).mp hk', (h _).mp hx]
  · rintro rfl
    exact .cons ((means_iff hk).mpr rfl) ((h _).mpr rfl) ((hs _ _).mpr rfl)

/-- What a part of a derivation denotes is what is computed of it. -/
def DenotesPart (parseFloat : GoString → Option F) : Json.Part → Prop
  | .value t => ∀ x, Denotes parseFloat t x ↔ x = denote parseFloat t
  | .elements ts => ∀ xs, DenotesElems parseFloat ts xs ↔ xs = denoteElems parseFloat ts
  | .members ms => ∀ m m', DenotesMembers parseFloat m ms m' ↔ m' = denoteMembers parseFloat m ms

theorem denotesPart_of_spells {part : Json.Part} {ns : Json.Numbers} (h : Json.Spells part w ns) :
    DenotesPart parseFloat part := by
  -- by induction on the derivation, which tells that the strings are those of the grammar
  induction h with
  | null => exact fun x => ⟨fun h => by cases h; rfl, fun h => h ▸ .null⟩
  | true => exact fun x => ⟨fun h => by cases h; rfl, fun h => h ▸ .bool true⟩
  | false => exact fun x => ⟨fun h => by cases h; rfl, fun h => h ▸ .bool false⟩
  | number hn =>
    intro x
    constructor
    · intro h
      cases h with
      | number hf => rw [denote, hf]; rfl
      | refused hf => rw [denote, hf]; rfl
    · rintro rfl
      rw [denote]
      cases hf : parseFloat _ with
      | none => exact .refused hf
      | some f => exact .number hf
  | string hs =>
    intro x
    constructor
    · intro h
      cases h with
      | string ht => rw [denote, (means_iff hs).mp ht]
    · rintro rfl
      exact .string ((means_iff hs).mpr rfl)
  | emptyArray hw =>
    intro x
    constructor
    · intro h
      cases h with
      | array h => cases h; rfl
    · rintro rfl
      exact .array .nil
  | array hu ih =>
    intro x
    constructor
    · intro h
      cases h with
      | array h => rw [denote, (ih _).mp h]
    · rintro rfl
      exact .array ((ih _).mpr rfl)
  | emptyObject hw =>
    intro x
    constructor
    · intro h
      cases h with
      | object h => cases h; rfl
    · rintro rfl
      exact .object .nil
  | object hu ih =>
    intro x
    constructor
    · intro h
      cases h with
      | object h => rw [denote, (ih _ _).mp h]
    · rintro rfl
      exact .object ((ih _ _).mpr rfl)
  | element hw hv hw' ih =>
    exact fun xs => denotesElems_cons ih fun xs =>
      ⟨fun h => by cases h; rfl, fun h => h ▸ .nil⟩
  | elements hw hv hw' hu ihv ihu => exact fun xs => denotesElems_cons ihv ihu
  | member hw₀ hs hw₁ hw₂ hv hw₃ ih =>
    exact fun m m' => denotesMembers_cons hs ih fun m m' =>
      ⟨fun h => by cases h; rfl, fun h => h ▸ .nil⟩
  | members hw₀ hs hw₁ hw₂ hv hw₃ hu ihv ihu => exact fun m m' => denotesMembers_cons hs ihv ihu

/-- **A derivation denotes one value.** -/
theorem denotes_iff {t : Json.Tree} {ns : Json.Numbers} {x : Interface F}
    (h : Json.Spells (.value t) w ns) : Denotes parseFloat t x ↔ x = denote parseFloat t :=
  denotesPart_of_spells h x

end

/-! ### The error that is saved -/

section

variable {F : Type} (parseFloat : GoString → Option F) {ns ns' : Json.Numbers}

/-- **The error of numbers**: it names the first that is refused, and where it ends. -/
def firstRefused (ns : Json.Numbers) : Option UnmarshalTypeError :=
  (ns.find? fun n => (parseFloat n.1).isNone).map fun n => ⟨("number " : GoString) ++ n.1, n.2⟩

theorem firstRefused_append :
    firstRefused parseFloat (ns ++ ns') =
      (firstRefused parseFloat ns).or (firstRefused parseFloat ns') := by
  rw [firstRefused, List.find?_append, firstRefused, firstRefused]
  cases ns.find? fun n => (parseFloat n.1).isNone <;> rfl

/-! ### The values of literals -/

/-- A literal that the decoder has just read has its value, and the error of its numbers is
saved, unless there is one already. -/
def Evaluates (t : Json.Tree) (w : GoString) (ns : Json.Numbers) : Prop :=
  ∀ (d : DecodeState) (pre : GoString), d.off = (pre ++ w).length →
    Decode.literalValue parseFloat w d = .ok (denote parseFloat t,
      { d with savedError := d.savedError.or (firstRefused parseFloat (ns.shift pre.length)) })

theorem evaluates_of_pure {t : Json.Tree}
    (h : Decode.literalValue parseFloat w = pure (denote parseFloat t)) :
    Evaluates parseFloat t w [] := by
  intro d pre _
  rw [h]
  show Except.ok (_, d) = Except.ok (_, { d with savedError := d.savedError.or none })
  rw [Option.or_none]

theorem evaluates_null : Evaluates parseFloat .null "null" [] := evaluates_of_pure parseFloat rfl

theorem evaluates_true : Evaluates parseFloat (.bool true) "true" [] :=
  evaluates_of_pure parseFloat rfl

theorem evaluates_false : Evaluates parseFloat (.bool false) "false" [] :=
  evaluates_of_pure parseFloat rfl

theorem evaluates_string (hs : s ∈ Json.chars) :
    Evaluates parseFloat (.string s) ([0x22] ++ s ++ [0x22]) [] := by
  refine evaluates_of_pure parseFloat ?_
  have hhead : ([0x22] ++ s ++ [0x22] : GoString).head? = some '"'.toUInt8 := rfl
  simp only [Decode.literalValue, hhead, unquoteBytes_of_chars hs]
  rw [if_neg (by decide), if_neg (by decide), if_pos trivial]
  rfl

/-- The byte that a number begins with. -/
theorem number_cases {n : GoString} (hn : n ∈ Json.number) :
    ∃ c, n.head? = some c ∧ (c = '-'.toUInt8 ∨ isDecimal c) := by
  obtain ⟨_, ⟨_, ⟨sign, hsign, i, hi, rfl⟩, f, -, rfl⟩, x, -, rfl⟩ := hn
  rcases hsign with rfl | ⟨_, rfl, rfl⟩
  · rcases hi with ⟨_, rfl, rfl⟩ | ⟨_, ⟨c, hc, rfl⟩, l, -, rfl⟩
    · exact ⟨_, rfl, .inr (by decide)⟩
    · exact ⟨c, rfl, .inr ⟨UInt8.le_trans (by decide) hc.1, hc.2⟩⟩
  · exact ⟨_, rfl, .inl rfl⟩

/-- A number goes to `convertNumber`. -/
theorem literalValue_number {n : GoString} (hn : n ∈ Json.number) :
    Decode.literalValue parseFloat n = Decode.convertNumber parseFloat n := by
  obtain ⟨c, hhead, hc⟩ := number_cases hn
  -- so it is none of the other literals
  have hne : ∀ b : UInt8, b ≠ '-'.toUInt8 → ¬ isDecimal b → c ≠ b := by
    rintro b hminus hdigit rfl
    exact hc.elim hminus hdigit
  have hnum : ¬ (c ≠ '-'.toUInt8 ∧ ¬ isDecimal c) := fun h => hc.elim h.1 h.2
  simp only [Decode.literalValue, hhead]
  rw [if_neg (hne _ (by decide) (by decide)),
    if_neg (not_or.mpr ⟨hne _ (by decide) (by decide), hne _ (by decide) (by decide)⟩),
    if_neg (hne _ (by decide) (by decide)), if_neg hnum]

theorem evaluates_number {n : GoString} (hn : n ∈ Json.number) :
    Evaluates parseFloat (.number n) n [(n, n.length)] := by
  intro d pre hoff
  rw [List.length_append] at hoff
  rw [literalValue_number parseFloat hn, Decode.convertNumber]
  cases hf : parseFloat n with
  | some f => simp [denote, firstRefused, Json.Numbers.shift, hf]
  | none =>
    -- the decoder has read up to the end of the number
    have hfirst : firstRefused parseFloat (Json.Numbers.shift pre.length [(n, n.length)]) =
        some ⟨("number " : GoString) ++ n, d.off⟩ := by
      simp [firstRefused, Json.Numbers.shift, hf, hoff]
    -- an error that was saved before stays
    have hor : ∀ err, d.savedError.or (some err) = some (d.savedError.getD err) := by
      intro err
      cases d.savedError <;> rfl
    rw [hfirst, hor, denote, hf]
    rfl

end

end PluginsDatastore
