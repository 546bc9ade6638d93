import PluginsDatastore.DataStore.Evaluation

/-!
# The presets of a store

`presets σ` are the stored presets, as a multiset without their keys, and
`shared σ s` those of the share id `s`. On a well-keyed store the writes of the
handlers have a plain effect on them: `presets_written` for a stored preset,
which takes the place of the presets of its name when it has one and is added
otherwise, and `presets_eraseAll` for a removal.
-/

namespace PluginsDatastore

open Calls

/-- The stored presets. -/
def presets (σ : Store) : Multiset SharedPreset :=
  σ.entries.map fun e => (SharedPreset.load e.2).1

/-- The presets of a share id. -/
def shared (σ : Store) (s : GoString) : Multiset SharedPreset :=
  (presets σ).filter fun p => p.shareId = s

variable {c : Context} {svc : Service} {σ : Store} {r : Request} {k : Key} {p : SharedPreset}
  {s n o : GoString}

theorem mem_presets (hσ : WellKeyed c σ) : p ∈ presets σ ↔ ∃ k, Has σ k p := by
  unfold presets
  rw [Multiset.mem_map]
  refine ⟨?_, ?_⟩
  · intro h
    obtain ⟨⟨k, props⟩, hmem, rfl⟩ := h
    obtain ⟨p, rfl, hp, -⟩ := hσ.exists_has (KeyedStore.mem_entries.mp hmem)
    exact ⟨k, hp⟩
  · intro h
    obtain ⟨k, hp⟩ := h
    exact ⟨(k, p.save), KeyedStore.mem_entries.mpr hp, rfl⟩

theorem mem_shared (hσ : WellKeyed c σ) :
    p ∈ shared σ s ↔ (∃ k, Has σ k p) ∧ p.shareId = s := by
  unfold shared
  rw [Multiset.mem_filter, mem_presets hσ]

/-- There are no presets without a share id. -/
theorem shared_empty (hσ : WellKeyed c σ) : shared σ "" = 0 := by
  rw [Multiset.eq_zero_iff_forall_notMem]
  intro p hp
  obtain ⟨⟨k, hk⟩, hs⟩ := (mem_shared hσ).mp hp
  exact (hσ.filed hk).shareId_ne hs

theorem holds_iff (hσ : WellKeyed c σ) :
    Holds σ s n o ↔ ∃ p ∈ shared σ s, p.presetName = n ∧ p.ownerId = o := by
  refine ⟨?_, ?_⟩
  · intro h
    obtain ⟨k, p, hp, hs, hn, ho⟩ := h
    exact ⟨p, (mem_shared hσ).mpr ⟨⟨k, hp⟩, hs⟩, hn, ho⟩
  · intro h
    obtain ⟨p, hmem, hn, ho⟩ := h
    obtain ⟨⟨k, hp⟩, hs⟩ := (mem_shared hσ).mp hmem
    exact ⟨k, p, hp, hs, hn, ho⟩

/-- The pairs whose key a test keeps, when the test can be read off the presets. -/
theorem map_filter_entries (hσ : WellKeyed c σ) {P : Key → Prop} {Q : SharedPreset → Prop}
    [DecidablePred P] [DecidablePred Q] (h : ∀ k p, Has σ k p → (P k ↔ Q p)) :
    (σ.entries.filter fun e => P e.1).map (fun e => (SharedPreset.load e.2).1) =
      (presets σ).filter Q := by
  unfold presets
  rw [Multiset.filter_map]
  refine congrArg _ (Multiset.filter_congr ?_)
  intro e hmem
  obtain ⟨k, props⟩ := e
  obtain ⟨p, rfl, hp, -⟩ := hσ.exists_has (KeyedStore.mem_entries.mp hmem)
  exact h k p hp

/-- **What a stored preset does to the presets**: it replaces the presets of its
share id and name when it has a name, and is added when it has none. -/
theorem presets_written (hσ : WellKeyed c σ) (hs : (submitted r).shareId ≠ "") :
    presets (written c svc r σ) = submitted r ::ₘ
      (presets σ).filter fun p => (submitted r).presetName = "" ∨
        ¬ (p.shareId = (submitted r).shareId ∧ p.presetName = (submitted r).presetName) := by
  -- the pairs the write keeps, told by their presets
  have hkeys : ∀ k p, Has σ k p →
      (k ≠ writtenKey c svc r σ ↔
        (submitted r).presetName = "" ∨
          ¬ (p.shareId = (submitted r).shareId ∧ p.presetName = (submitted r).presetName)) := by
    intro k p hp
    have hfiled := hσ.filed hp
    by_cases hn : (submitted r).presetName = ""
    · -- the key is a new one
      refine ⟨fun _ => .inl hn, fun _ => ?_⟩
      rintro rfl
      exact writtenKey_unnamed_notMem hn (KeyedStore.mem_used hp)
    · refine ⟨fun hne => .inr fun hpair => ?_, fun hor heq => ?_⟩
      · -- a preset of the pair is under the key of the pair
        have hk := hfiled.eq_presetKey (by rw [hpair.2]; exact hn)
        rw [hpair.1, hpair.2] at hk
        rw [writtenKey_named hn] at hne
        exact hne hk
      · -- and a preset under the key written is of the pair
        rw [heq] at hp
        exact (hor.resolve_left hn) (hσ.replaced hs hp)
  have hentries : (written c svc r σ).entries =
      (writtenKey c svc r σ, (submitted r).save) ::ₘ
        σ.entries.filter (fun e => e.1 ≠ writtenKey c svc r σ) := KeyedStore.entries_put
  calc presets (written c svc r σ)
      = submitted r ::ₘ (σ.entries.filter fun e => e.1 ≠ writtenKey c svc r σ).map
          fun e => (SharedPreset.load e.2).1 := by
        rw [presets, hentries, Multiset.map_cons, SharedPreset.load_save]
    _ = _ := by rw [map_filter_entries hσ hkeys]

/-- **What a removal does to the presets.** -/
theorem presets_eraseAll (hσ : WellKeyed c σ) {keys : List Key} {Q : SharedPreset → Prop}
    [DecidablePred Q] (h : ∀ k p, Has σ k p → (k ∈ keys ↔ Q p)) :
    presets (σ.eraseAll keys) = (presets σ).filter fun p => ¬ Q p := by
  rw [presets, KeyedStore.entries_eraseAll,
    map_filter_entries hσ fun k p hp => not_congr (h k p hp)]

/-- **What `loadPreset` lists** are the presets of the share id. -/
theorem coe_presetsBelow (hσ : WellKeyed c σ) (s : GoString) :
    (presetsBelow c svc σ s : Multiset SharedPreset) = shared σ s := by
  unfold presetsBelow shared presets
  rw [← Multiset.map_coe, Service.coe_found, Multiset.map_map, Multiset.filter_map]
  -- lying below the share id is having it
  have hfilter : (σ.entries.filter fun e => (below c s).isResult e.1 e.2 = true) =
      σ.entries.filter ((fun p => p.shareId = s) ∘ fun e => (SharedPreset.load e.2).1) := by
    refine Multiset.filter_congr ?_
    intro e hmem
    obtain ⟨k, props⟩ := e
    obtain ⟨p, rfl, -, hfiled⟩ := hσ.exists_has (KeyedStore.mem_entries.mp hmem)
    exact hfiled.isResult_below
  rw [hfilter]
  rfl

end PluginsDatastore
