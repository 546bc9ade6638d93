import PluginsDatastore.Appengine.Query

/-!
# Keys on the wire

A key travels as a `pb.Reference`, the path of its ancestors from the root down:
`keyToProto` and `protoToKey` of `appengine/datastore/datastore.go`. The two are
inverse to each other on valid keys and on no others
(`protoToKey_keyToProto_iff`): a key that is not valid is refused, or comes back
as another key.

A pointer field of a message that may be nil is an `Option`. `keyToProto` of a
nil key is a nil dereference in the source and `none` here.
-/

namespace PluginsDatastore

/-- `pb.Path_Element`: one key of the path. At most one of the ids is set. -/
structure PathElement where
  type : GoString
  id : Option ℤ := none
  name : Option GoString := none
  deriving DecidableEq

/-- `pb.Reference`. -/
structure Reference where
  app : GoString
  nameSpace : Option GoString
  path : List PathElement
  deriving DecidableEq

namespace Key

/-- The key and its ancestors, from the root down. -/
def chain : Key → List Key
  | nil => []
  | mk kind stringID intID parent appID nameSpace =>
    parent.chain ++ [mk kind stringID intID parent appID nameSpace]

/-- What `keyToProto` makes of one key of the path: a name goes before an id. -/
def element : Key → PathElement
  | nil => { type := "" }
  | mk kind stringID intID _ _ _ =>
    if stringID ≠ "" then { type := kind, name := some stringID }
    else if intID ≠ 0 then { type := kind, id := some intID }
    else { type := kind }

end Key

/-- `keyToProto`. -/
def keyToProto (defaultAppID : GoString) : Key → Option Reference
  | .nil => none
  | .mk kind stringID intID parent appID nameSpace => some
    { app := if appID = "" then defaultAppID else appID
      nameSpace := if nameSpace ≠ "" then some nameSpace else none
      path := (Key.mk kind stringID intID parent appID nameSpace).chain.map Key.element }

/-- One round of the loop of `protoToKey`. -/
def protoToKeyStep (appID nameSpace : GoString) (k : Key) (e : PathElement) :
    Except Error Key :=
  let k := Key.mk e.type (e.name.getD "") (e.id.getD 0) k appID nameSpace
  if !k.valid then .error .invalidKey else .ok k

/-- `protoToKey`. A path without elements gives the nil key and no error. -/
def protoToKey (r : Reference) : Except Error Key :=
  r.path.foldlM (protoToKeyStep r.app (r.nameSpace.getD "")) .nil

/-! ### Valid keys -/

namespace Key

/-- The parent of a key. -/
def parent : Key → Key
  | nil => nil
  | mk _ _ _ parent _ _ => parent

theorem valid_mk {kind stringID appID nameSpace : GoString} {intID : ℤ} {parent : Key} :
    (mk kind stringID intID parent appID nameSpace).valid = true ↔
      validLink kind stringID intID parent appID nameSpace = true ∧
        (parent = nil ∨ parent.valid = true) := by
  unfold valid
  cases parent with
  | nil => simp [validChain]
  | mk => simp [validChain]

theorem validLink_iff {kind stringID appID nameSpace : GoString} {intID : ℤ} {parent : Key} :
    validLink kind stringID intID parent appID nameSpace = true ↔
      kind ≠ "" ∧ appID ≠ "" ∧ (stringID = "" ∨ intID = 0) ∧
        (parent = nil ∨ parent.incomplete = false ∧ parent.appID = appID ∧
          parent.nameSpace = nameSpace) := by
  simp only [validLink, Bool.and_eq_true, Bool.or_eq_true, Bool.not_eq_true', decide_eq_true_eq,
    Bool.or_eq_false_iff, Bool.and_eq_false_iff, decide_eq_false_iff_not, ne_eq, not_not]
  tauto

/-- The parents of a valid key belong to its application and its namespace. -/
theorem valid_mk_parent {kind stringID appID nameSpace : GoString} {intID : ℤ} {parent : Key}
    (h : (mk kind stringID intID parent appID nameSpace).valid = true) (hne : parent ≠ nil) :
    parent.appID = appID ∧ parent.nameSpace = nameSpace := by
  obtain ⟨-, -, -, hparent⟩ := validLink_iff.mp (valid_mk.mp h).1
  exact (hparent.resolve_left hne).2

end Key

variable {defaultAppID : GoString} {k : Key} {r : Reference}

/-- The element of a valid key has the ids of the key. -/
theorem Key.getD_element {kind stringID appID nameSpace : GoString} {intID : ℤ} {parent : Key}
    (h : (mk kind stringID intID parent appID nameSpace).valid = true) :
    let e := (mk kind stringID intID parent appID nameSpace).element
    e.type = kind ∧ e.name.getD "" = stringID ∧ e.id.getD 0 = intID := by
  obtain ⟨-, -, hboth, -⟩ := validLink_iff.mp (Key.valid_mk.mp h).1
  by_cases hs : stringID = ""
  · by_cases hi : intID = 0 <;> simp [element, hs, hi]
  · have hi : intID = 0 := hboth.resolve_left hs
    simp [element, hs, hi]

/-- The loop of `protoToKey` rebuilds a valid key from the elements of its chain. -/
theorem foldlM_chain (h : k.valid = true) :
    (k.chain.map Key.element).foldlM (protoToKeyStep k.appID k.nameSpace) .nil = .ok k := by
  induction k with
  | nil => exact absurd h (by decide)
  | mk kind stringID intID parent appID nameSpace ih =>
    obtain ⟨-, hparent⟩ := Key.valid_mk.mp h
    obtain ⟨htype, hname, hid⟩ := Key.getD_element h
    -- the chain of the parent gives the parent
    have hrest : (parent.chain.map Key.element).foldlM (protoToKeyStep appID nameSpace) .nil =
        .ok parent := by
      by_cases hnil : parent = .nil
      · rw [hnil]
        rfl
      · obtain ⟨rfl, rfl⟩ := Key.valid_mk_parent h hnil
        exact ih (hparent.resolve_left hnil)
    rw [Key.chain, List.map_append, List.foldlM_append]
    show Except.bind ((parent.chain.map Key.element).foldlM (protoToKeyStep appID nameSpace) .nil)
      _ = _
    rw [hrest]
    show Except.bind (protoToKeyStep appID nameSpace parent
      (Key.mk kind stringID intID parent appID nameSpace).element) pure = _
    simp only [protoToKeyStep, htype, hname, hid, h]
    rfl

/-- What `protoToKey` gives is a valid key, or the nil key of an empty path. -/
theorem foldlM_valid {appID nameSpace : GoString} {es : List PathElement} {k₀ : Key}
    (hk₀ : k₀ = .nil ∨ k₀.valid = true)
    (h : es.foldlM (protoToKeyStep appID nameSpace) k₀ = .ok k) : k = .nil ∨ k.valid = true := by
  induction es generalizing k₀ with
  | nil =>
    obtain rfl : k₀ = k := Except.ok.inj h
    exact hk₀
  | cons e es ih =>
    rw [List.foldlM_cons] at h
    -- the loop goes on with a key it has checked
    cases hstep : protoToKeyStep appID nameSpace k₀ e with
    | error err =>
      rw [hstep] at h
      exact absurd h (by simp [bind, Except.bind])
    | ok k₁ =>
      rw [hstep] at h
      refine ih (.inr ?_) h
      unfold protoToKeyStep at hstep
      by_cases hvalid :
          (Key.mk e.type (e.name.getD "") (e.id.getD 0) k₀ appID nameSpace).valid = true
      · simp only [hvalid] at hstep
        obtain rfl := Except.ok.inj hstep
        exact hvalid
      · simp only [Bool.not_eq_true] at hvalid
        simp only [hvalid] at hstep
        exact absurd hstep (by simp)

theorem protoToKey_valid (h : protoToKey r = .ok k) : k = .nil ∨ k.valid = true :=
  foldlM_valid (.inl rfl) h

theorem protoToKey_keyToProto (h : k.valid = true) :
    ∃ r, keyToProto defaultAppID k = some r ∧ protoToKey r = .ok k := by
  have hchain := foldlM_chain h
  cases k with
  | nil => exact absurd h (by decide)
  | mk kind stringID intID parent appID nameSpace =>
    refine ⟨_, rfl, ?_⟩
    -- a valid key has an application id, so the default is not used
    obtain ⟨-, happ, -, -⟩ := Key.validLink_iff.mp (Key.valid_mk.mp h).1
    have hns : ((if nameSpace ≠ "" then some nameSpace else none : Option GoString)).getD "" =
        nameSpace := by
      by_cases hns : nameSpace = "" <;> simp [hns]
    rw [protoToKey, if_neg happ, hns]
    exact hchain

/-- **Exactly the valid keys survive the wire.** -/
theorem protoToKey_keyToProto_iff (defaultAppID : GoString) (k : Key) :
    (∃ r, keyToProto defaultAppID k = some r ∧ protoToKey r = .ok k) ↔ k.valid = true := by
  refine ⟨?_, protoToKey_keyToProto⟩
  rintro ⟨r, hr, hk⟩
  rcases protoToKey_valid hk with rfl | hvalid
  · exact absurd hr (by simp [keyToProto])
  · exact hvalid

end PluginsDatastore
