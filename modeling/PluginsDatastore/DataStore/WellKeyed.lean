import PluginsDatastore.DataStore.Programs

/-!
# Where presets are stored

The check of `storePreset` looks presets up by their properties, below a share
id; the write goes by the key. What ties the two together is an invariant of the
stored entities, `WellKeyed`: every entity is a saved preset, filed under the
key that is built from its own share id and name, with a generated integer id
exactly when the name is empty, and no preset has an empty share id.

On a well-keyed store the queries of the handlers can be read off the presets:
`WellKeyed.found_named_eq_zero`, `WellKeyed.found_ownedNamed_eq_zero` and
`WellKeyed.mem_found_toRemove` say what the counts and the query of a removal
amount to. `WellKeyed.put` and `WellKeyed.eraseAll` keep the invariant.
-/

namespace PluginsDatastore

open Calls

/-! ### Saved presets -/

namespace SharedPreset

/-- A saved preset loads as it was. -/
@[simp] theorem load_save (p : SharedPreset) : load p.save = (p, none) := rfl

theorem save_injective : Function.Injective save := by
  intro p p' h
  -- loading undoes saving
  have hload : (load p.save).1 = (load p'.save).1 := by rw [h]
  rwa [load_save, load_save] at hload

variable (p : SharedPreset)

@[simp] theorem indexedValue_ownerId : indexedValue p.save "OwnerId" = some p.ownerId := rfl

@[simp] theorem indexedValue_shareId : indexedValue p.save "ShareId" = some p.shareId := rfl

@[simp] theorem indexedValue_presetName :
    indexedValue p.save "PresetName" = some p.presetName := rfl

end SharedPreset

/-- The preset `p` is stored under the key `k`. -/
def Has (σ : Store) (k : Key) (p : SharedPreset) : Prop := σ.get k = some p.save

/-- The owner `o` has a preset named `n` under the share id `s`. -/
def Holds (σ : Store) (s n o : GoString) : Prop :=
  ∃ k p, Has σ k p ∧ p.shareId = s ∧ p.presetName = n ∧ p.ownerId = o

/-- Somebody has a preset named `n` under the share id `s`. -/
def Taken (σ : Store) (s n : GoString) : Prop := ∃ o, Holds σ s n o

/-- The preset is one that a removal for the owner `o`, the share id `s` and the
name `n` is to remove. -/
structure Matches (s o n : GoString) (p : SharedPreset) : Prop where
  shareId : p.shareId = s
  ownerId : p.ownerId = o
  presetName : n ≠ "" → p.presetName = n

/-- The key `k` is one under which the preset `p` belongs. -/
structure Filed (c : Context) (k : Key) (p : SharedPreset) : Prop where
  shareId_ne : p.shareId ≠ ""
  key : ∃ intID, k = (presetKey c p.shareId p.presetName).withID intID ∧
    (p.presetName = "" ↔ intID ≠ 0)

/-- **Every entity is a preset in its place.** -/
def WellKeyed (c : Context) (σ : Store) : Prop :=
  ∀ k props, σ.get k = some props → ∃ p : SharedPreset, props = p.save ∧ Filed c k p

variable {c : Context} {σ τ : Store} {k : Key} {p p' : SharedPreset} {s n o : GoString}
  {svc : Service}

theorem Has.unique (h : Has σ k p) (h' : Has σ k p') : p = p' :=
  SharedPreset.save_injective (Option.some.inj (h.symm.trans h'))

theorem Has.holds (h : Has σ k p) : Holds σ p.shareId p.presetName p.ownerId :=
  ⟨k, p, h, rfl, rfl, rfl⟩

/-- Nothing is taken in the empty store. -/
theorem not_taken_empty : ¬ Taken KeyedStore.empty s n := by
  intro h
  obtain ⟨o, k, p, hp, -⟩ := h
  rw [Has, KeyedStore.get_empty] at hp
  exact absurd hp (by simp)

theorem has_put {j : Key} :
    Has (σ.put k p.save) j p' ↔ (j = k ∧ p' = p) ∨ (j ≠ k ∧ Has σ j p') := by
  unfold Has
  by_cases hj : j = k
  · -- what is under the key is what was written
    subst hj
    rw [KeyedStore.get_put_self]
    simp [SharedPreset.save_injective.eq_iff, eq_comm]
  · rw [KeyedStore.get_put_of_ne hj]
    simp [hj]

theorem has_eraseAll {keys : List Key} : Has (σ.eraseAll keys) k p ↔ Has σ k p ∧ k ∉ keys := by
  unfold Has
  rw [KeyedStore.get_eraseAll]
  by_cases hk : k ∈ keys <;> simp [hk]

/-! ### The keys of presets -/

namespace Filed

theorem kind (h : Filed c k p) : k.kind = "Preset" := by
  obtain ⟨intID, rfl, -⟩ := h.key
  rfl

/-- A preset lies below the share id it has. -/
theorem under_iff (h : Filed c k p) : k.under (sharedPresetsKey c s) = true ↔ p.shareId = s := by
  obtain ⟨intID, rfl, -⟩ := h.key
  -- the key itself is of another kind, so the ancestor is its parent
  have hkind : (("Preset" : String) : GoString) ≠ (("SharedPresets" : String) : GoString) := by
    decide
  simp [presetKey, sharedPresetsKey, newKey, Key.withID, Key.under, hkind]

/-- The entity group of a preset is that of its share id. -/
theorem root_eq (h : Filed c k p) : k.root = sharedPresetsKey c p.shareId := by
  obtain ⟨intID, rfl, -⟩ := h.key
  simp [presetKey, sharedPresetsKey, newKey, Key.withID, Key.root]

/-- The key of a preset is a valid one to write under or to delete. -/
theorem valid (h : Filed c k p) : k.valid = true := by
  obtain ⟨intID, rfl, hid⟩ := h.key
  have happ := c.appID_ne
  have hkind : (("Preset" : String) : GoString) ≠ "" := by decide
  have hkind' : (("SharedPresets" : String) : GoString) ≠ "" := by decide
  -- a valid key has not both a name and an id
  have hboth : p.presetName = "" ∨ intID = 0 := by
    by_contra hnot
    rw [not_or] at hnot
    exact hnot.1 (hid.mpr hnot.2)
  simp [presetKey, sharedPresetsKey, newKey, Key.withID, Key.valid, Key.validChain, Key.validLink,
    Key.incomplete, Key.appID, Key.nameSpace, h.shareId_ne, happ, hkind, hkind', hboth]

/-- A key is the place of presets of one share id and one name only. -/
theorem unique (h : Filed c k p) (h' : Filed c k p') :
    p.shareId = p'.shareId ∧ p.presetName = p'.presetName := by
  obtain ⟨intID, rfl, -⟩ := h.key
  obtain ⟨intID', heq, -⟩ := h'.key
  simp only [presetKey, sharedPresetsKey, newKey, Key.withID, Key.mk.injEq] at heq
  exact ⟨heq.2.2.2.1.2.1, heq.2.1⟩

/-- A preset with a name has one place. -/
theorem eq_presetKey (h : Filed c k p) (hn : p.presetName ≠ "") :
    k = presetKey c p.shareId p.presetName := by
  obtain ⟨intID, rfl, hid⟩ := h.key
  obtain rfl : intID = 0 := by
    by_contra hne
    exact hn (hid.mpr hne)
  rfl

end Filed

theorem incomplete_presetKey : (presetKey c s n).incomplete = decide (n = "") := by
  simp [presetKey, newKey, Key.incomplete]

/-- A preset with a name is written to the key of its share id and name. -/
theorem putKey_named (hn : n ≠ "") (σ : Store) :
    svc.putKey (presetKey c s n) σ = presetKey c s n :=
  Service.putKey_of_complete (by rw [incomplete_presetKey]; simpa using hn) σ

/-- A preset without a name is written to a key that was never used. -/
theorem putKey_unnamed_notMem (hn : n = "") (σ : Store) :
    svc.putKey (presetKey c s n) σ ∉ σ.used :=
  Service.putKey_fresh (by rw [incomplete_presetKey]; simpa using hn) σ

/-- The key that a write of a preset goes to is a place of it. -/
theorem filed_putKey (svc : Service) (σ : Store) (hs : p.shareId ≠ "") :
    Filed c (svc.putKey (presetKey c p.shareId p.presetName) σ) p := by
  refine ⟨hs, ?_⟩
  by_cases hn : p.presetName = ""
  · -- the service completes the key
    refine ⟨svc.newID (presetKey c p.shareId p.presetName) σ.used, ?_, ?_⟩
    · rw [Service.putKey_of_incomplete (by rw [incomplete_presetKey]; simpa using hn)]
    · exact ⟨fun _ => svc.newID_ne _ _, fun _ => hn⟩
  · -- the key is complete as it is
    refine ⟨0, ?_, ?_⟩
    · rw [Service.putKey_of_complete (by rw [incomplete_presetKey]; simpa using hn)]
      rfl
    · exact ⟨fun h => absurd h hn, fun h => absurd rfl h⟩

/-! ### What the queries of the handlers are about -/

namespace Filed

/-- A query for presets below a share id is about those that have it and pass the
filters. -/
theorem isResult_iff (h : Filed c k p) {q : Query} (hkind : q.kind = "Preset")
    (hancestor : q.ancestor = sharedPresetsKey c s) (hprojection : q.projection = []) :
    q.isResult k p.save = true ↔ p.shareId = s ∧
      q.filter.all (fun f => (indexedValue p.save f.fieldName).any (f.op.compare · f.value))
        = true := by
  have hnil : sharedPresetsKey c s ≠ .nil := by simp [sharedPresetsKey, newKey]
  simp [Query.isResult, hkind, hancestor, hprojection, h.kind, h.under_iff, hnil]

theorem isResult_below (h : Filed c k p) :
    (below c s).isResult k p.save = true ↔ p.shareId = s := by
  rw [h.isResult_iff rfl rfl rfl]
  exact and_iff_left rfl

theorem isResult_named (h : Filed c k p) :
    (named c s n).isResult k p.save = true ↔ p.shareId = s ∧ p.presetName = n := by
  rw [h.isResult_iff rfl rfl rfl]
  simp [named, Operator.compare]

theorem isResult_owned (h : Filed c k p) :
    (owned c s o).isResult k p.save = true ↔ p.shareId = s ∧ p.ownerId = o := by
  rw [h.isResult_iff rfl rfl rfl]
  simp [owned, Operator.compare]

theorem isResult_ownedNamed (h : Filed c k p) :
    (ownedNamed c s o n).isResult k p.save = true ↔
      p.shareId = s ∧ p.ownerId = o ∧ p.presetName = n := by
  rw [h.isResult_iff rfl rfl rfl]
  simp [ownedNamed, Operator.compare]

theorem isResult_toRemove (h : Filed c k p) :
    (toRemove c s o n).isResult k p.save = true ↔ Matches s o n p := by
  by_cases hn : n = ""
  · -- without a name the query filters on the owner only
    rw [toRemove, if_pos hn, h.isResult_owned]
    exact ⟨fun hp => ⟨hp.1, hp.2, fun hne => absurd hn hne⟩, fun hp => ⟨hp.shareId, hp.ownerId⟩⟩
  · rw [toRemove, if_neg hn, h.isResult_ownedNamed]
    exact ⟨fun hp => ⟨hp.1, hp.2.1, fun _ => hp.2.2⟩,
      fun hp => ⟨hp.shareId, hp.ownerId, hp.presetName hn⟩⟩

/-- Every preset has a share id to be listed by. -/
theorem isResult_distinctShareIds (h : Filed c k p) :
    distinctShareIds.isResult k p.save = true := by
  simp [distinctShareIds, Query.isResult, h.kind]

end Filed

namespace WellKeyed

/-- An entity found is a preset in its place. -/
theorem exists_has (hσ : WellKeyed c σ) {props : List Property} (h : σ.get k = some props) :
    ∃ p, props = p.save ∧ Has σ k p ∧ Filed c k p := by
  obtain ⟨p, rfl, hp⟩ := hσ k props h
  exact ⟨p, rfl, h, hp⟩

theorem filed (hσ : WellKeyed c σ) (h : Has σ k p) : Filed c k p := by
  obtain ⟨p', hsave, hp'⟩ := hσ k p.save h
  rwa [SharedPreset.save_injective hsave]

/-- The presets of one share id and one name are at one key, if there is a name. -/
theorem key_unique {k' : Key} (hσ : WellKeyed c σ) (hp : Has σ k p) (hp' : Has σ k' p')
    (hs : p.shareId = p'.shareId) (hn : p.presetName = p'.presetName) (hne : p.presetName ≠ "") :
    k = k' := by
  -- both are at the key that is built from the pair
  have hk := (hσ.filed hp).eq_presetKey hne
  have hk' := (hσ.filed hp').eq_presetKey (by rw [← hn]; exact hne)
  rw [hk, hk', hs, hn]

/-- A share id and a name have one owner at most. -/
theorem owner_unique {o' : GoString} (hσ : WellKeyed c σ) (hn : n ≠ "") (ho : Holds σ s n o)
    (ho' : Holds σ s n o') : o = o' := by
  obtain ⟨k, p, hp, rfl, rfl, rfl⟩ := ho
  obtain ⟨k', p', hp', hs', hn', rfl⟩ := ho'
  obtain rfl := hσ.key_unique hp hp' hs'.symm hn'.symm hn
  rw [hp.unique hp']

/-- **The first count of the check** is zero when nobody has a preset of the name. -/
theorem found_named_eq_zero (hσ : WellKeyed c σ) :
    (svc.found (named c s n) σ).length = 0 ↔ ¬ Taken σ s n := by
  rw [Service.length_found_eq_zero]
  refine ⟨?_, ?_⟩
  · -- a preset of the pair would be found
    intro h hex
    obtain ⟨o, k, p, hp, rfl, rfl, -⟩ := hex
    have hres := h k p.save hp
    rw [(hσ.filed hp).isResult_named.mpr ⟨rfl, rfl⟩] at hres
    exact absurd hres (by simp)
  · -- and an entity found is a preset of the pair
    intro h k props hget
    obtain ⟨p, rfl, hp, hfiled⟩ := hσ.exists_has hget
    by_contra hres
    rw [Bool.not_eq_false, hfiled.isResult_named] at hres
    exact h ⟨p.ownerId, k, p, hp, hres.1, hres.2, rfl⟩

/-- **The second count of the check** is zero when the owner has no preset of the
name. -/
theorem found_ownedNamed_eq_zero (hσ : WellKeyed c σ) :
    (svc.found (ownedNamed c s o n) σ).length = 0 ↔ ¬ Holds σ s n o := by
  rw [Service.length_found_eq_zero]
  refine ⟨?_, ?_⟩
  · intro h hex
    obtain ⟨k, p, hp, rfl, rfl, rfl⟩ := hex
    have hres := h k p.save hp
    rw [(hσ.filed hp).isResult_ownedNamed.mpr ⟨rfl, rfl, rfl⟩] at hres
    exact absurd hres (by simp)
  · intro h k props hget
    obtain ⟨p, rfl, hp, hfiled⟩ := hσ.exists_has hget
    by_contra hres
    rw [Bool.not_eq_false, hfiled.isResult_ownedNamed] at hres
    exact h ⟨k, p, hp, hres.1, hres.2.2, hres.2.1⟩

/-- **The query of a removal** yields the keys of the presets it is to remove. -/
theorem mem_found_toRemove (hσ : WellKeyed c σ) :
    k ∈ (svc.found (toRemove c s o n) σ).map Prod.fst ↔ ∃ p, Has σ k p ∧ Matches s o n p := by
  rw [Service.mem_map_fst_found]
  refine ⟨?_, ?_⟩
  · intro h
    obtain ⟨props, hget, hres⟩ := h
    obtain ⟨p, rfl, hp, hfiled⟩ := hσ.exists_has hget
    exact ⟨p, hp, hfiled.isResult_toRemove.mp hres⟩
  · intro h
    obtain ⟨p, hp, hmatches⟩ := h
    exact ⟨p.save, hp, (hσ.filed hp).isResult_toRemove.mpr hmatches⟩

/-! ### Keeping the invariant -/

theorem empty : WellKeyed c KeyedStore.empty := by
  intro k props h
  rw [KeyedStore.get_empty] at h
  exact absurd h (by simp)

/-- A write of a preset to its place. -/
theorem put (hσ : WellKeyed c σ) (h : Filed c k p) : WellKeyed c (σ.put k p.save) := by
  intro j props hget
  rw [KeyedStore.get_put] at hget
  split at hget
  · next hj =>
    -- the entity written
    subst hj
    exact ⟨p, (Option.some.inj hget).symm, h⟩
  · exact hσ j props hget

theorem eraseAll (hσ : WellKeyed c σ) (keys : List Key) : WellKeyed c (σ.eraseAll keys) :=
  fun j props hget => hσ j props (KeyedStore.get_of_get_eraseAll hget).1

end WellKeyed

end PluginsDatastore
