import PluginsDatastore.Words.Paths

/-!
# The grammar of JSON

A text of JSON and what it says, over bytes. The lexical part is a handful of regular
languages. The rest is the relation `Spells` of the parts of a text and the texts that
spell them: a value, the elements of an array, the members of an object. It keeps the
numbers of a part, and where each of them ends.

A `Tree` keeps numbers and strings as they are written. What a program makes of them,
and of a name that an object has twice, is not a matter of the grammar.

The languages `value`, `elements` and `members` are closed under the productions of the
grammar (`array_le_value` and the others).
-/

namespace Json

open Words Computability

/-! ### White space, numbers and strings -/

/-- White space. -/
def ws : Language UInt8 := (letters fun c => c = 0x20 ∨ c = 0x09 ∨ c = 0x0D ∨ c = 0x0A)∗

/-- A digit. -/
def digit : Language UInt8 := letters fun c => 0x30 ≤ c ∧ c ≤ 0x39

/-- A digit that is not zero. -/
def digit19 : Language UInt8 := letters fun c => 0x31 ≤ c ∧ c ≤ 0x39

/-- The integer part of a number has no leading zeros. -/
def int : Language UInt8 := letter 0x30 + digit19 * digit∗

/-- The fraction of a number, from its point on. -/
def frac : Language UInt8 := letter 0x2E * digit * digit∗

/-- The exponent of a number. -/
def exp : Language UInt8 :=
  (letters fun c => c = 0x65 ∨ c = 0x45) * (1 + letters fun c => c = 0x2B ∨ c = 0x2D) * digit
    * digit∗

/-- A number. -/
def number : Language UInt8 := (1 + letter 0x2D) * int * (1 + frac) * (1 + exp)

/-- A hexadecimal digit. -/
def hex : Language UInt8 :=
  letters fun c => (0x30 ≤ c ∧ c ≤ 0x39) ∨ (0x61 ≤ c ∧ c ≤ 0x66) ∨ (0x41 ≤ c ∧ c ≤ 0x46)

/-- A byte of a string that stands for itself. -/
def unescaped : Language UInt8 := letters fun c => 0x20 ≤ c ∧ c ≠ 0x22 ∧ c ≠ 0x5C

/-- What follows the backslash of an escape. -/
def escaped : Language UInt8 :=
  (letters fun c => c ∈ ([0x62, 0x66, 0x6E, 0x72, 0x74, 0x5C, 0x2F, 0x22] : List UInt8))
    + letter 0x75 * hex * hex * hex * hex

/-- What is between the quotes of a string. -/
def chars : Language UInt8 := (unescaped + letter 0x5C * escaped)∗

/-- A string with its quotes. -/
def quoted : Language UInt8 := letter 0x22 * chars * letter 0x22

/-- White space is made of its bytes. -/
theorem mem_ws {w : List UInt8} :
    w ∈ ws ↔ ∀ c ∈ w, c = 0x20 ∨ c = 0x09 ∨ c = 0x0D ∨ c = 0x0A := by
  constructor
  · rintro ⟨l, rfl, hl⟩ c hc
    obtain ⟨v, hv, hc⟩ := List.mem_flatten.mp hc
    obtain ⟨b, hb, rfl⟩ := hl v hv
    obtain rfl := List.mem_singleton.mp hc
    exact hb
  · intro h
    refine ⟨w.map fun c => [c], ?_, ?_⟩
    · rw [← List.flatMap_def, List.flatMap_singleton']
    · intro v hv
      obtain ⟨c, hc, rfl⟩ := List.mem_map.mp hv
      exact ⟨c, h c hc, rfl⟩

theorem quoted_of_chars {s : List UInt8} (hs : s ∈ chars) : [0x22] ++ s ++ [0x22] ∈ quoted :=
  Language.append_mem_mul (Language.append_mem_mul (singleton_mem_letters.mpr rfl) hs)
    (singleton_mem_letters.mpr rfl)

/-- What is between the quotes of a string begins with a byte that stands for itself or
with an escape. -/
theorem chars_cases {s : List UInt8} (h : s ∈ chars) :
    s = [] ∨ (∃ c t, (0x20 ≤ c ∧ c ≠ 0x22 ∧ c ≠ 0x5C) ∧ t ∈ chars ∧ s = c :: t) ∨
      ∃ e t, e ∈ escaped ∧ t ∈ chars ∧ s = 0x5C :: (e ++ t) := by
  obtain ⟨l, rfl, hl⟩ := h
  cases l with
  | nil => exact .inl rfl
  | cons v l =>
    rw [List.forall_mem_cons] at hl
    have ht : l.flatten ∈ chars := ⟨l, rfl, hl.2⟩
    rcases hl.1 with ⟨c, hc, rfl⟩ | ⟨_, ⟨_, rfl, rfl⟩, e, he, rfl⟩
    · exact .inr (.inl ⟨c, l.flatten, hc, ht, rfl⟩)
    · exact .inr (.inr ⟨e, l.flatten, he, ht, rfl⟩)

/-! ### Values -/

/-- A JSON value, with its numbers and strings as they are written. -/
inductive Tree : Type
  | null
  | bool (b : Bool)
  | number (text : List UInt8)
  | string (body : List UInt8)
  | array (elems : List Tree)
  | object (members : List (List UInt8 × Tree))

/-- The parts that a text has. -/
inductive Part : Type
  | value (t : Tree)
  | elements (ts : List Tree)
  | members (ms : List (List UInt8 × Tree))

/-- Numbers as they are written, each with the position at which it ends. -/
abbrev Numbers : Type := List (List UInt8 × ℕ)

/-- The numbers of a part after `k` bytes. -/
def Numbers.shift (k : ℕ) (ns : Numbers) : Numbers := ns.map fun n => (n.1, k + n.2)

/-- **The texts that spell a part**, and the numbers in them. The elements of an array and
the members of an object come with the white space around them. -/
inductive Spells : Part → List UInt8 → Numbers → Prop
  | null : Spells (.value .null) "null".toUTF8.data.toList []
  | true : Spells (.value (.bool true)) "true".toUTF8.data.toList []
  | false : Spells (.value (.bool false)) "false".toUTF8.data.toList []
  | number {n : List UInt8} (hn : n ∈ number) : Spells (.value (.number n)) n [(n, n.length)]
  | string {s : List UInt8} (hs : s ∈ chars) :
      Spells (.value (.string s)) ([0x22] ++ s ++ [0x22]) []
  | emptyArray {w : List UInt8} (hw : w ∈ ws) :
      Spells (.value (.array [])) ([0x5B] ++ w ++ [0x5D]) []
  | array {ts : List Tree} {u : List UInt8} {ns : Numbers} (hu : Spells (.elements ts) u ns) :
      Spells (.value (.array ts)) ([0x5B] ++ u ++ [0x5D]) (ns.shift 1)
  | emptyObject {w : List UInt8} (hw : w ∈ ws) :
      Spells (.value (.object [])) ([0x7B] ++ w ++ [0x7D]) []
  | object {ms : List (List UInt8 × Tree)} {u : List UInt8} {ns : Numbers}
      (hu : Spells (.members ms) u ns) :
      Spells (.value (.object ms)) ([0x7B] ++ u ++ [0x7D]) (ns.shift 1)
  | element {t : Tree} {w v w' : List UInt8} {ns : Numbers} (hw : w ∈ ws)
      (hv : Spells (.value t) v ns) (hw' : w' ∈ ws) :
      Spells (.elements [t]) (w ++ v ++ w') (ns.shift w.length)
  | elements {t : Tree} {ts : List Tree} {w v w' u : List UInt8} {ns ns' : Numbers} (hw : w ∈ ws)
      (hv : Spells (.value t) v ns) (hw' : w' ∈ ws) (hu : Spells (.elements ts) u ns') :
      Spells (.elements (t :: ts)) (w ++ v ++ w' ++ [0x2C] ++ u)
        (ns.shift w.length ++ ns'.shift (w ++ v ++ w' ++ [0x2C]).length)
  | member {s : List UInt8} {t : Tree} {w₀ w₁ w₂ v w₃ : List UInt8} {ns : Numbers} (hw₀ : w₀ ∈ ws)
      (hs : s ∈ chars) (hw₁ : w₁ ∈ ws) (hw₂ : w₂ ∈ ws) (hv : Spells (.value t) v ns)
      (hw₃ : w₃ ∈ ws) :
      Spells (.members [(s, t)])
        (w₀ ++ ([0x22] ++ s ++ [0x22]) ++ w₁ ++ [0x3A] ++ w₂ ++ v ++ w₃)
        (ns.shift (w₀ ++ ([0x22] ++ s ++ [0x22]) ++ w₁ ++ [0x3A] ++ w₂).length)
  | members {s : List UInt8} {t : Tree} {ms : List (List UInt8 × Tree)}
      {w₀ w₁ w₂ v w₃ u : List UInt8} {ns ns' : Numbers} (hw₀ : w₀ ∈ ws) (hs : s ∈ chars)
      (hw₁ : w₁ ∈ ws) (hw₂ : w₂ ∈ ws) (hv : Spells (.value t) v ns) (hw₃ : w₃ ∈ ws)
      (hu : Spells (.members ms) u ns') :
      Spells (.members ((s, t) :: ms))
        (w₀ ++ ([0x22] ++ s ++ [0x22]) ++ w₁ ++ [0x3A] ++ w₂ ++ v ++ w₃ ++ [0x2C] ++ u)
        (ns.shift (w₀ ++ ([0x22] ++ s ++ [0x22]) ++ w₁ ++ [0x3A] ++ w₂).length ++
          ns'.shift
            (w₀ ++ ([0x22] ++ s ++ [0x22]) ++ w₁ ++ [0x3A] ++ w₂ ++ v ++ w₃ ++ [0x2C]).length)

theorem Numbers.shift_shift (k k' : ℕ) (ns : Numbers) :
    (ns.shift k).shift k' = ns.shift (k' + k) := by
  simp [shift, Nat.add_assoc]

theorem Numbers.shift_append (k : ℕ) (ns ns' : Numbers) :
    (ns ++ ns').shift k = ns.shift k ++ ns'.shift k := List.map_append

/-- The texts of values. -/
def value : Language UInt8 := {w | ∃ t ns, Spells (.value t) w ns}

/-- The texts of the elements of an array that is not empty. -/
def elements : Language UInt8 := {w | ∃ ts ns, Spells (.elements ts) w ns}

/-- The texts of the members of an object that is not empty. -/
def members : Language UInt8 := {w | ∃ ms ns, Spells (.members ms) w ns}

/-- A value with white space around it. -/
def spaced : Language UInt8 := ws * value * ws

/-- A member of an object. -/
def pair : Language UInt8 := ws * quoted * ws * letter 0x3A * spaced

/-- **A JSON text**: a value with white space around it. -/
def text : Language UInt8 := spaced

theorem mem_text {w : List UInt8} :
    w ∈ text ↔ ∃ u ∈ ws, ∃ t v ns, Spells (.value t) v ns ∧ ∃ u' ∈ ws, w = u ++ v ++ u' := by
  constructor
  · rintro ⟨_, ⟨u, hu, v, ⟨t, ns, ht⟩, rfl⟩, u', hu', rfl⟩
    exact ⟨u, hu, t, v, ns, ht, u', hu', rfl⟩
  · rintro ⟨u, hu, t, v, ns, ht, u', hu', rfl⟩
    exact ⟨u ++ v, ⟨u, hu, v, ⟨t, ns, ht⟩, rfl⟩, u', hu', rfl⟩

/-! ### The productions as inclusions of languages -/

theorem number_le_value : number ≤ value := fun w hw => ⟨.number w, _, .number hw⟩

theorem quoted_le_value : quoted ≤ value := by
  rintro _ ⟨_, ⟨_, ⟨_, rfl, rfl⟩, s, hs, rfl⟩, _, ⟨_, rfl, rfl⟩, rfl⟩
  exact ⟨.string s, _, .string hs⟩

theorem true_le_value : letter 0x74 * letter 0x72 * letter 0x75 * letter 0x65 ≤ value := by
  rintro _ ⟨_, ⟨_, ⟨_, ⟨_, rfl, rfl⟩, _, ⟨_, rfl, rfl⟩, rfl⟩, _, ⟨_, rfl, rfl⟩, rfl⟩, _,
    ⟨_, rfl, rfl⟩, rfl⟩
  exact ⟨.bool true, _, .true⟩

theorem false_le_value :
    letter 0x66 * letter 0x61 * letter 0x6C * letter 0x73 * letter 0x65 ≤ value := by
  rintro _ ⟨_, ⟨_, ⟨_, ⟨_, ⟨_, rfl, rfl⟩, _, ⟨_, rfl, rfl⟩, rfl⟩, _, ⟨_, rfl, rfl⟩, rfl⟩, _,
    ⟨_, rfl, rfl⟩, rfl⟩, _, ⟨_, rfl, rfl⟩, rfl⟩
  exact ⟨.bool false, _, .false⟩

theorem null_le_value : letter 0x6E * letter 0x75 * letter 0x6C * letter 0x6C ≤ value := by
  rintro _ ⟨_, ⟨_, ⟨_, ⟨_, rfl, rfl⟩, _, ⟨_, rfl, rfl⟩, rfl⟩, _, ⟨_, rfl, rfl⟩, rfl⟩, _,
    ⟨_, rfl, rfl⟩, rfl⟩
  exact ⟨.null, _, .null⟩

theorem emptyArray_le_value : letter 0x5B * ws * letter 0x5D ≤ value := by
  rintro _ ⟨_, ⟨_, ⟨_, rfl, rfl⟩, w, hw, rfl⟩, _, ⟨_, rfl, rfl⟩, rfl⟩
  exact ⟨.array [], _, .emptyArray hw⟩

theorem array_le_value : letter 0x5B * elements * letter 0x5D ≤ value := by
  rintro _ ⟨_, ⟨_, ⟨_, rfl, rfl⟩, u, ⟨ts, _, hu⟩, rfl⟩, _, ⟨_, rfl, rfl⟩, rfl⟩
  exact ⟨.array ts, _, .array hu⟩

theorem emptyObject_le_value : letter 0x7B * ws * letter 0x7D ≤ value := by
  rintro _ ⟨_, ⟨_, ⟨_, rfl, rfl⟩, w, hw, rfl⟩, _, ⟨_, rfl, rfl⟩, rfl⟩
  exact ⟨.object [], _, .emptyObject hw⟩

theorem object_le_value : letter 0x7B * members * letter 0x7D ≤ value := by
  rintro _ ⟨_, ⟨_, ⟨_, rfl, rfl⟩, u, ⟨ms, _, hu⟩, rfl⟩, _, ⟨_, rfl, rfl⟩, rfl⟩
  exact ⟨.object ms, _, .object hu⟩

theorem spaced_le_elements : spaced ≤ elements := by
  rintro _ ⟨_, ⟨w, hw, v, ⟨t, _, hv⟩, rfl⟩, w', hw', rfl⟩
  exact ⟨[t], _, .element hw hv hw'⟩

theorem elements_le_elements : spaced * letter 0x2C * elements ≤ elements := by
  rintro _ ⟨_, ⟨_, ⟨_, ⟨w, hw, v, ⟨t, _, hv⟩, rfl⟩, w', hw', rfl⟩, _, ⟨_, rfl, rfl⟩, rfl⟩, u,
    ⟨ts, _, hu⟩, rfl⟩
  exact ⟨t :: ts, _, .elements hw hv hw' hu⟩

theorem pair_le_members : pair ≤ members := by
  rintro _ ⟨_, ⟨_, ⟨_, ⟨w₀, hw₀, _, ⟨_, ⟨_, ⟨_, rfl, rfl⟩, s, hs, rfl⟩, _, ⟨_, rfl, rfl⟩, rfl⟩,
    rfl⟩, w₁, hw₁, rfl⟩, _, ⟨_, rfl, rfl⟩, rfl⟩, _, ⟨_, ⟨w₂, hw₂, v, ⟨t, _, hv⟩, rfl⟩, w₃, hw₃,
    rfl⟩, rfl⟩
  have h : _ ∈ members := ⟨[(s, t)], _, Spells.member hw₀ hs hw₁ hw₂ hv hw₃⟩
  simp only [List.append_assoc] at h ⊢
  exact h

theorem members_le_members : pair * letter 0x2C * members ≤ members := by
  rintro _ ⟨_, ⟨_, ⟨_, ⟨_, ⟨_, ⟨w₀, hw₀, _, ⟨_, ⟨_, ⟨_, rfl, rfl⟩, s, hs, rfl⟩, _, ⟨_, rfl, rfl⟩,
    rfl⟩, rfl⟩, w₁, hw₁, rfl⟩, _, ⟨_, rfl, rfl⟩, rfl⟩, _, ⟨_, ⟨w₂, hw₂, v, ⟨t, _, hv⟩, rfl⟩, w₃,
    hw₃, rfl⟩, rfl⟩, _, ⟨_, rfl, rfl⟩, rfl⟩, u, ⟨ms, _, hu⟩, rfl⟩
  have h : _ ∈ members := ⟨(s, t) :: ms, _, Spells.members hw₀ hs hw₁ hw₂ hv hw₃ hu⟩
  simp only [List.append_assoc] at h ⊢
  exact h

/-- The integer part of a number and the rest of it. -/
theorem int_le_value {L : Language UInt8} (h : L ≤ (1 + letter 0x2D) * int) :
    L * (1 + frac) * (1 + exp) ≤ value :=
  (mul_le_mul_left (mul_le_mul_left h _) _).trans number_le_value

/-! ### The rest of an array and of an object -/

/-- What follows an element of an array, after white space. -/
def arrayTail : Language UInt8 := letter 0x5D + letter 0x2C * elements * letter 0x5D

/-- What follows a member of an object, after white space. -/
def objectTail : Language UInt8 := letter 0x7D + letter 0x2C * members * letter 0x7D

/-- An element and what follows it are elements and the closing bracket. -/
theorem spaced_mul_arrayTail_le : spaced * arrayTail ≤ elements * letter 0x5D := by
  rw [arrayTail, mul_add, ← mul_assoc, ← mul_assoc]
  exact sup_le (mul_le_mul_left spaced_le_elements _) (mul_le_mul_left elements_le_elements _)

/-- A member and what follows it are members and the closing brace. -/
theorem pair_mul_objectTail_le : pair * objectTail ≤ members * letter 0x7D := by
  rw [objectTail, mul_add, ← mul_assoc, ← mul_assoc]
  exact sup_le (mul_le_mul_left pair_le_members _) (mul_le_mul_left members_le_members _)

theorem arrayTail_le_value :
    letter 0x5B * (ws * letter 0x5D) + letter 0x5B * (spaced * arrayTail) ≤ value := by
  refine sup_le ?_ ?_
  · rw [← mul_assoc]
    exact emptyArray_le_value
  · refine (mul_le_mul_right spaced_mul_arrayTail_le _).trans ?_
    rw [← mul_assoc]
    exact array_le_value

theorem objectTail_le_value :
    letter 0x7B * (ws * letter 0x7D) + letter 0x7B * (pair * objectTail) ≤ value := by
  refine sup_le ?_ ?_
  · rw [← mul_assoc]
    exact emptyObject_le_value
  · refine (mul_le_mul_right pair_mul_objectTail_le _).trans ?_
    rw [← mul_assoc]
    exact object_le_value

end Json
