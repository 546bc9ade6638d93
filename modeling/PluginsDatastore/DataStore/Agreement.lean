import PluginsDatastore.DataStore.Contents

/-!
# `getShareIds` and `loadPreset` agree

The two readers find presets by different routes: `getShareIds` projects every
preset on its share id property, `loadPreset` goes by the parent of the key. On a
well-keyed store both see the same share ids. `share_ids_agree` says so of the
responses in every reachable store.
-/

namespace PluginsDatastore

open Calls

variable {c : Context} {svc : Service} {σ : Store} {s : GoString}

/-- What the distinct projection delivers of a preset. -/
theorem deliver_distinctShareIds (k : Key) (p : SharedPreset) :
    (distinctShareIds.deliver k p.save).2 = [⟨"ShareId", p.shareId, false⟩] := rfl

theorem mem_map_snd_found (hσ : WellKeyed c σ) {props : List Property} :
    props ∈ (svc.found distinctShareIds σ).map Prod.snd ↔
      ∃ k p, Has σ k p ∧ props = [⟨"ShareId", p.shareId, false⟩] := by
  rw [List.mem_map]
  refine ⟨?_, ?_⟩
  · intro h
    obtain ⟨e, he, rfl⟩ := h
    obtain ⟨k, props, hget, -, rfl⟩ := Service.mem_found.mp he
    obtain ⟨p, rfl, hp, -⟩ := hσ.exists_has hget
    exact ⟨k, p, hp, deliver_distinctShareIds k p⟩
  · intro h
    obtain ⟨k, p, hp, rfl⟩ := h
    refine ⟨distinctShareIds.deliver k p.save, ?_, deliver_distinctShareIds k p⟩
    exact Service.mem_found.mpr ⟨k, p.save, hp, (hσ.filed hp).isResult_distinctShareIds, rfl⟩

/-- The share ids listed, from the lists of properties that are delivered. -/
theorem shareIdsFound_eq (svc : Service) (σ : Store) :
    shareIdsFound svc σ = ((svc.found distinctShareIds σ).map Prod.snd).dedup.map
      fun props => (SharedPreset.load props).1.shareId := by
  rw [← Service.map_snd_results rfl, List.map_map]
  rfl

/-- **`getShareIds` lists the share ids of the presets.** -/
theorem mem_shareIdsFound (hσ : WellKeyed c σ) :
    s ∈ shareIdsFound svc σ ↔ ∃ k p, Has σ k p ∧ p.shareId = s := by
  rw [shareIdsFound_eq, List.mem_map]
  refine ⟨?_, ?_⟩
  · intro h
    obtain ⟨props, hmem, rfl⟩ := h
    obtain ⟨k, p, hp, rfl⟩ := (mem_map_snd_found hσ).mp (List.mem_dedup.mp hmem)
    exact ⟨k, p, hp, rfl⟩
  · intro h
    obtain ⟨k, p, hp, rfl⟩ := h
    exact ⟨_, List.mem_dedup.mpr ((mem_map_snd_found hσ).mpr ⟨k, p, hp, rfl⟩), rfl⟩

/-- No share id is listed twice. -/
theorem nodup_shareIdsFound (hσ : WellKeyed c σ) : (shareIdsFound svc σ).Nodup := by
  rw [shareIdsFound_eq]
  -- the lists of properties delivered differ, and a list is its share id
  refine List.Nodup.map_on ?_ (List.nodup_dedup _)
  intro props hprops props' hprops' heq
  obtain ⟨k, p, -, rfl⟩ := (mem_map_snd_found hσ).mp (List.mem_dedup.mp hprops)
  obtain ⟨k', p', -, rfl⟩ := (mem_map_snd_found hσ).mp (List.mem_dedup.mp hprops')
  have hshare : p.shareId = p'.shareId := heq
  rw [hshare]

/-- A share id is listed when `loadPreset` finds a preset of it. -/
theorem mem_shareIdsFound_iff (hσ : WellKeyed c σ) :
    s ∈ shareIdsFound svc σ ↔ presetsBelow c svc σ s ≠ [] := by
  have hcoe : (presetsBelow c svc σ s : Multiset SharedPreset) = shared σ s :=
    coe_presetsBelow hσ s
  rw [mem_shareIdsFound hσ, ne_eq, List.eq_nil_iff_forall_not_mem, not_forall]
  refine ⟨?_, ?_⟩
  · -- from the property to the parent of the key
    intro h
    obtain ⟨k, p, hp, hs⟩ := h
    refine ⟨p, not_not.mpr ?_⟩
    rw [← Multiset.mem_coe, hcoe]
    exact (mem_shared hσ).mpr ⟨⟨k, hp⟩, hs⟩
  · -- and back
    intro h
    obtain ⟨p, hp⟩ := h
    rw [not_not, ← Multiset.mem_coe, hcoe, mem_shared hσ] at hp
    obtain ⟨⟨k, hk⟩, hs⟩ := hp
    exact ⟨k, p, hk, hs⟩

/-- **`getShareIds` and `loadPreset` agree.** In every reachable store, whichever
calls failed on the way, the list of `getShareIds` has no share id twice and no
empty string, and it has the share id of a `loadPreset` request exactly when that
request writes a list that is not empty. A request without a share id may get an
error instead of a list. -/
theorem share_ids_agree (c : Context) (svc : Service) (σ : Store) (hσ : Reachable c svc σ)
    (r : Request) :
    ∃ shareIds : List GoString,
      (serve c svc σ ⟨.getShareIds, r⟩).1 = .ok (writeJson {} r (.strings (.of shareIds))) ∧
      shareIds.Nodup ∧ ("" : GoString) ∉ shareIds ∧
      ∀ r' : Request,
        (∃ l : List SharedPreset,
          (serve c svc σ ⟨.load, r'⟩).1 = .ok (writeJson {} r' (.presets (.of l))) ∧
          (r'.formValue "shareId" ∈ shareIds ↔ l ≠ [])) ∨
        (r'.formValue "shareId" = "" ∧ ∃ err, (serve c svc σ ⟨.load, r'⟩).1 = failed {} err) := by
  have hkeyed := hσ.wellKeyed
  have hblank : ("" : GoString) ∉ shareIdsFound svc σ := by
    rw [mem_shareIdsFound_iff hkeyed, presetsBelow_noShare hkeyed]
    exact fun h => h rfl
  refine ⟨shareIdsFound svc σ, congrArg Prod.fst (eval_getShareIds {} r σ),
    nodup_shareIdsFound hkeyed, hblank, fun r' => ?_⟩
  by_cases hs : r'.formValue "shareId" = ""
  · -- without a share id: an error, or the empty list
    have hanswer : (serve c svc σ ⟨.load, r'⟩).1 = _ := eval_loadPreset_noShare hkeyed hs
    rw [hanswer]
    cases svc.rejects (below c (r'.formValue "shareId")).forCount with
    | some err => exact .inr ⟨hs, err, rfl⟩
    | none =>
      cases svc.rejects (below c (r'.formValue "shareId")) with
      | some err => exact .inr ⟨hs, err, rfl⟩
      | none =>
        refine .inl ⟨[], rfl, ?_⟩
        rw [hs]
        exact ⟨fun h => absurd h hblank, fun h => absurd rfl h⟩
  · refine .inl ⟨presetsBelow c svc σ (r'.formValue "shareId"), ?_, ?_⟩
    · exact congrArg Prod.fst (eval_loadPreset hkeyed hs)
    · exact mem_shareIdsFound_iff hkeyed

/-- With Ann's preset stored, the two readers agree on the share id of the team. -/
theorem share_ids_agree_ann :
    ∃ (shareIds : List GoString) (l : List SharedPreset),
      (serve Sample.context .inKeyOrder (Sample.after [⟨.store, Sample.ann⟩])
        ⟨.getShareIds, Sample.bob⟩).1 =
          .ok (writeJson {} Sample.bob (.strings (.of shareIds))) ∧
      shareIds.Nodup ∧ ("" : GoString) ∉ shareIds ∧
      (serve Sample.context .inKeyOrder (Sample.after [⟨.store, Sample.ann⟩])
        ⟨.load, Sample.ann⟩).1 = .ok (writeJson {} Sample.ann (.presets (.of l))) ∧
      (("team" : GoString) ∈ shareIds ↔ l ≠ []) := by
  obtain ⟨shareIds, hresp, hnodup, hblank, hagree⟩ := share_ids_agree Sample.context .inKeyOrder
    (Sample.after [⟨.store, Sample.ann⟩]) (Sample.reachable_after _) Sample.bob
  rcases hagree Sample.ann with ⟨l, hload, hiff⟩ | ⟨hblank', -⟩
  · exact ⟨shareIds, l, hresp, hnodup, hblank, hload, hiff⟩
  · exact absurd hblank' (by decide)

end PluginsDatastore
