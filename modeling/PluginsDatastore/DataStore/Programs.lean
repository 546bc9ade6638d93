import PluginsDatastore.DataStore

/-!
# The calls of the handlers

Every handler makes a few calls in a fixed order, and what it does with a reply
depends on little of it: whether a count failed, is zero or is not, which keys a
query yielded and how it ended. This module spells each handler out as the tree
of its calls (`storePreset_eq`, `removePreset_eq`, `loadPreset_eq`,
`getShareIds_eq`). Everything later is proved from these equations, so that only
this module looks at how the handlers are written and how the package prepares
their calls.
-/

namespace PluginsDatastore

open Calls

/-! ### The queries -/

/-- The presets below a share id. -/
def below (c : Context) (shareId : GoString) : Query where
  kind := "Preset"
  ancestor := sharedPresetsKey c shareId

/-- The keys of the presets of a name below a share id. -/
def named (c : Context) (shareId presetName : GoString) : Query where
  kind := "Preset"
  ancestor := sharedPresetsKey c shareId
  filter := [⟨"PresetName", .equal, presetName⟩]
  keysOnly := true

/-- The keys of the presets of an owner and a name below a share id. -/
def ownedNamed (c : Context) (shareId ownerId presetName : GoString) : Query where
  kind := "Preset"
  ancestor := sharedPresetsKey c shareId
  filter := [⟨"OwnerId", .equal, ownerId⟩, ⟨"PresetName", .equal, presetName⟩]
  keysOnly := true

/-- The keys of the presets of an owner below a share id. -/
def owned (c : Context) (shareId ownerId : GoString) : Query where
  kind := "Preset"
  ancestor := sharedPresetsKey c shareId
  filter := [⟨"OwnerId", .equal, ownerId⟩]
  keysOnly := true

/-- The keys that a removal asks for: without a name, all of the owner's. -/
def toRemove (c : Context) (shareId ownerId presetName : GoString) : Query :=
  if presetName = "" then owned c shareId ownerId else ownedNamed c shareId ownerId presetName

/-- The share ids in use. -/
def distinctShareIds : Query where
  kind := "Preset"
  projection := ["ShareId"]
  distinct := true

variable {c : Context} {s o n : GoString} {w : ResponseWriter} {r : Request}

theorem valid_below : (below c s).Valid where
  err := rfl
  project := fun h => h.1 rfl
  fieldNames := rfl

theorem valid_named : (named c s n).Valid where
  err := rfl
  project := fun h => h.1 rfl
  fieldNames := rfl

theorem valid_ownedNamed : (ownedNamed c s o n).Valid where
  err := rfl
  project := fun h => h.1 rfl
  fieldNames := rfl

theorem valid_owned : (owned c s o).Valid where
  err := rfl
  project := fun h => h.1 rfl
  fieldNames := rfl

theorem valid_toRemove : (toRemove c s o n).Valid := by
  unfold toRemove
  split
  · exact valid_owned
  · exact valid_ownedNamed

theorem keysOnly_toRemove : (toRemove c s o n).keysOnly = true := by
  unfold toRemove
  split <;> rfl

theorem kind_toRemove : (toRemove c s o n).kind = "Preset" := by
  unfold toRemove
  split <;> rfl

theorem projection_toRemove : (toRemove c s o n).projection = [] := by
  unfold toRemove
  split <;> rfl

theorem ancestor_toRemove : (toRemove c s o n).ancestor = sharedPresetsKey c s := by
  unfold toRemove
  split <;> rfl

theorem distinct_toRemove : (toRemove c s o n).distinct = false := by
  unfold toRemove
  split <;> rfl

theorem valid_distinctShareIds : distinctShareIds.Valid where
  err := rfl
  project := fun h => Bool.false_ne_true h.2
  fieldNames := rfl

/-! ### Storing -/

/-- The preset that a request asks to store. -/
def submitted (r : Request) : SharedPreset where
  ownerId := r.formValue "ownerId"
  shareId := r.formValue "shareId"
  author := r.formValue "author"
  presetName := r.formValue "presetName"
  preset := r.formValue "preset"

/-- The key that `storePreset` writes to. -/
def presetKey (c : Context) (shareId presetName : GoString) : Key :=
  newKey c "Preset" presetName 0 (sharedPresetsKey c shareId)

/-- A count that succeeded and is zero. -/
def absent : Except Error ℕ → Bool
  | .ok 0 => true
  | _ => false

/-- A count that succeeded and is not zero. -/
def present : Except Error ℕ → Bool
  | .ok (_ + 1) => true
  | _ => false

@[simp] theorem absent_ok (m : ℕ) : absent (.ok m) = decide (m = 0) := by
  cases m <;> simp [absent]

@[simp] theorem absent_error (err : Error) : absent (.error err) = false := rfl

@[simp] theorem present_ok (m : ℕ) : present (.ok m) = decide (m ≠ 0) := by
  cases m <;> simp [present]

@[simp] theorem present_error (err : Error) : present (.error err) = false := rfl

theorem absent_iff {reply : Except Error ℕ} :
    absent reply = true ↔ (countReply reply).2 = none ∧ (countReply reply).1 = 0 := by
  cases reply <;> simp [countReply]

theorem present_iff {reply : Except Error ℕ} :
    present reply = true ↔ (countReply reply).2 = none ∧ (countReply reply).1 > 0 := by
  cases reply <;> simp [countReply, Nat.pos_iff_ne_zero]

/-- **`checkIsNewOrOwner` as a tree of calls.** -/
theorem checkIsNewOrOwner_eq :
    checkIsNewOrOwner c n s o =
      .call (I := datastore) (.count (named c s n)) fun r₁ =>
        if absent r₁ then .ret true
        else .call (I := datastore) (.count (ownedNamed c s o n)) fun r₂ => .ret (present r₂) := by
  have hnamed : (((newQuery "Preset").setKeysOnly).withAncestor
      (sharedPresetsKey c s)).addFilter "PresetName=" n = named c s n := rfl
  have hownedNamed : ((((newQuery "Preset").setKeysOnly).withAncestor
      (sharedPresetsKey c s)).addFilter "OwnerId=" o).addFilter "PresetName=" n =
        ownedNamed c s o n := rfl
  unfold checkIsNewOrOwner
  -- both filtered queries are built on the same unfiltered one
  simp only [hnamed, hownedNamed, valid_named.count_eq, valid_ownedNamed.count_eq, Prog.call_bind,
    Prog.ret_bind, ← absent_iff, ← present_iff]
  refine Prog.call_congr fun r₁ => ?_
  cases absent r₁ with
  | true => rfl
  | false =>
    -- the second count decides
    refine Prog.call_congr fun r₂ => ?_
    cases present r₂ <;> rfl

/-- The answer with an error. -/
def failed (w : ResponseWriter) (err : Error) : Served :=
  .ok (httpError w err.text statusInternalServerError)

/-- The answer of `storePreset` and `removePreset` when nothing failed. -/
def done (w : ResponseWriter) (r : Request) : Served := .ok (writeJson w r .nil)

/-- The write of `storePreset`. -/
def storeWrite (c : Context) (w : ResponseWriter) (r : Request) : Prog datastore Served :=
  .call (I := datastore)
    (.put (presetKey c (submitted r).shareId (submitted r).presetName) (submitted r).save)
    fun
    | .error err => .ret (failed w err)
    | .ok _ => .ret (done w r)

/-- What `storePreset` does once the check grants the request. Without a share id
the key is invalid, and nothing is written. -/
def storeGranted (c : Context) (w : ResponseWriter) (r : Request) : Prog datastore Served :=
  if (submitted r).shareId = "" then .ret (failed w .invalidKey) else storeWrite c w r

/-- What `storePreset` does when the first count does not grant the request. -/
def storeSecond (c : Context) (w : ResponseWriter) (r : Request) : Prog datastore Served :=
  .call (I := datastore)
    (.count (ownedNamed c (submitted r).shareId (submitted r).ownerId (submitted r).presetName))
    fun r₂ => if present r₂ then storeGranted c w r else .ret (done w r)

/-- A key below a share id is valid when there is a share id. -/
theorem valid_presetKey : (presetKey c s n).valid = decide (s ≠ "") := by
  have happ := c.appID_ne
  have hkind : (("Preset" : String) : GoString) ≠ "" := by decide
  have hkind' : (("SharedPresets" : String) : GoString) ≠ "" := by decide
  -- a key without a name is incomplete but valid, its parent must not be incomplete
  by_cases hs : s = "" <;>
    simp [presetKey, sharedPresetsKey, newKey, Key.valid, Key.validChain, Key.validLink,
      Key.incomplete, Key.appID, Key.nameSpace, hs, happ, hkind, hkind']

/-- The check of `storePreset` for a request. -/
def storeCheck (c : Context) (r : Request) : Prog datastore Bool :=
  checkIsNewOrOwner c (submitted r).presetName (submitted r).shareId (submitted r).ownerId

/-- `storePreset` is the check and what follows from its answer. -/
theorem storePreset_bind :
    storePreset c w r = (storeCheck c r >>= fun granted =>
      if granted then storeGranted c w r else .ret (done w r)) := by
  unfold storePreset
  refine Prog.bind_congr fun granted => ?_
  cases granted with
  | false => rfl
  | true =>
    -- the key decides whether `Put` makes its call
    have hvalid := valid_presetKey (c := c) (n := (submitted r).presetName)
      (s := (submitted r).shareId)
    show put (presetKey c (submitted r).shareId (submitted r).presetName)
      (submitted r).save >>= _ = storeGranted c w r
    unfold storeGranted
    by_cases hs : (submitted r).shareId = ""
    · rw [put_of_not_valid (by rw [hvalid]; simpa using hs), if_pos hs]
      rfl
    · rw [put_of_valid (by rw [hvalid]; simpa using hs), if_neg hs]
      refine Prog.call_congr fun reply => ?_
      cases reply <;> rfl

/-- **`storePreset` as a tree of calls.** -/
theorem storePreset_eq :
    storePreset c w r =
      .call (I := datastore) (.count (named c (submitted r).shareId (submitted r).presetName))
        fun r₁ => if absent r₁ then storeGranted c w r else storeSecond c w r := by
  rw [storePreset_bind, storeCheck, checkIsNewOrOwner_eq, Prog.call_bind]
  refine Prog.call_congr fun r₁ => ?_
  cases absent r₁ <;> rfl

/-! ### Removing -/

/-- The query of `removePreset` for a request. -/
abbrev removalQuery (c : Context) (r : Request) : Query :=
  toRemove c (r.formValue "shareId") (r.formValue "ownerId") (r.formValue "presetName")

/-- The deletion of `removePreset`, of the keys its query yielded. -/
def removeDelete (w : ResponseWriter) (r : Request) (keys : List Key) : Prog datastore Served :=
  deleteMulti keys >>= fun
    | some err => .ret (failed w err)
    | none => .ret (done w r)

/-- What `removePreset` does with the answers to its query. Keys that were gathered
before the query failed are not deleted. -/
def removeFound (w : ResponseWriter) (r : Request) (res : Replies EntityProto) :
    Prog datastore Served :=
  if res.final = .done then removeDelete w r (res.results.map Prod.fst)
  else .ret (failed w res.final)

/-- **`removePreset` as a tree of calls.** -/
theorem removePreset_eq :
    removePreset c w r =
      .call (I := datastore) (.runQuery (removalQuery c r)) (removeFound w r) := by
  have hshape : removePreset c w r =
      ((removalQuery c r).getAll SharedPreset.load none >>= fun x =>
          match x.2.2 with
          | some err => .ret (failed w err)
          | none => removeDelete w r x.1) := by
    have hrest : ∀ keys : List Key, (do
        match ← deleteMulti keys with
        | some err => return failed w err
        | none => return done w r) = removeDelete w r keys := by
      intro keys
      refine Prog.bind_congr fun reply => ?_
      cases reply <;> rfl
    -- with a name and without one, only the query is another
    by_cases hn : r.formValue "presetName" = ""
    all_goals
      simp only [removePreset, removalQuery, toRemove, hn, if_true, if_false]
      refine Prog.bind_congr fun x => ?_
      obtain ⟨keys, dst, err⟩ := x
      cases err with
      | none => exact hrest keys
      | some err => rfl
  rw [hshape, valid_toRemove.getAll_keysOnly keysOnly_toRemove, Prog.call_bind]
  refine Prog.call_congr fun res => ?_
  -- `Done` is no error of `GetAll`, any other end is
  unfold removeFound
  by_cases hdone : res.final = .done
  · simp [Iterator.endError, hdone]
  · simp [Iterator.endError, hdone]

theorem removeDelete_nil : removeDelete w r [] = .ret (done w r) := rfl

theorem removeDelete_of_valid {keys : List Key} (hne : keys ≠ [])
    (hvalid : ∀ k ∈ keys, k.valid = true) :
    removeDelete w r keys = .call (I := datastore) (.delete keys) fun
      | some err => .ret (failed w err)
      | none => .ret (done w r) := by
  unfold removeDelete
  rw [deleteMulti_of_valid hne hvalid, Prog.perform_bind]
  refine Prog.call_congr fun reply => ?_
  cases reply <;> rfl

/-! ### Loading -/

/-- What `loadPreset` makes of the results of its query. -/
def loaded (w : ResponseWriter) (r : Request) (res : Replies EntityProto) : Served :=
  match (Iterator.receive res).getAllLoop false SharedPreset.load (res.results.length + 1) []
    (.of []) none with
  | (_, _, some err) => failed w err
  | (_, presets, none) => .ok (writeJson w r (.presets presets))

/-- **`loadPreset` as a tree of calls.** -/
theorem loadPreset_eq :
    loadPreset c w r =
      .call (I := datastore) (.count (below c (r.formValue "shareId")).forCount) fun
        | .error err => .ret (failed w err)
        | .ok _ => .call (I := datastore) (.runQuery (below c (r.formValue "shareId"))) fun res =>
            .ret (loaded w r res) := by
  have hquery : (newQuery "Preset").withAncestor (sharedPresetsKey c (r.formValue "shareId")) =
      below c (r.formValue "shareId") := rfl
  simp only [loadPreset, hquery]
  rw [valid_below.count_eq, Prog.call_bind]
  refine Prog.call_congr fun reply => ?_
  cases reply with
  | error err => rfl
  | ok count =>
    -- the count is not used again
    show (below c (r.formValue "shareId")).getAll SharedPreset.load (some (.of [])) >>= _ = _
    rw [valid_below.getAll_load rfl, Prog.call_bind]
    refine Prog.call_congr fun res => ?_
    rw [Prog.ret_bind, loaded]
    generalize (Iterator.receive res).getAllLoop false SharedPreset.load _ [] (.of []) none = x
    obtain ⟨keys, presets, err⟩ := x
    cases err <;> rfl

/-! ### Listing the share ids -/

/-- What `getShareIds` makes of its count and of the results of its query. -/
def listed (w : ResponseWriter) (r : Request) (count : ℕ) (res : Replies EntityProto) : Served :=
  match shareIdsLoop (Iterator.receive res) (List.replicate count "") 0 with
  | .error err => .error err
  | .ok shareIds => .ok (writeJson w r (.strings (.of shareIds)))

/-- **`getShareIds` as a tree of calls.** -/
theorem getShareIds_eq :
    getShareIds w r =
      .call (I := datastore) (.count distinctShareIds) fun
        | .error err => .ret (failed w err)
        | .ok count => .call (I := datastore) (.runQuery distinctShareIds) fun res =>
            .ret (listed w r count res) := by
  have hquery : ((newQuery "Preset").project ["ShareId"]).setDistinct = distinctShareIds := rfl
  simp only [getShareIds, hquery]
  rw [valid_distinctShareIds.count_eq, Prog.call_bind]
  refine Prog.call_congr fun reply => ?_
  cases reply with
  | error err => rfl
  | ok count =>
    show distinctShareIds.run >>= _ = _
    rw [valid_distinctShareIds.run_eq, Prog.call_bind]
    refine Prog.call_congr fun res => ?_
    rw [Prog.ret_bind, listed]
    generalize shareIdsLoop (Iterator.receive res) _ 0 = x
    cases x <;> rfl

end PluginsDatastore
