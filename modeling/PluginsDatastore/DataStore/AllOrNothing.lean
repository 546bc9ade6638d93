import PluginsDatastore.DataStore.Contents

/-!
# Removing and loading when calls fail

`removePreset` and `loadPreset` act on the results of a query as a whole. A query
that fails yields some of its results with its error, and both handlers then drop
what they have got and answer the error.

That leaves the deletion itself. The presets of a share id lie in one entity group,
that of their common parent (`Filed.root_eq`), so the keys of a removal do as well
(`oneGroup_of_matches`), and a deletion within one entity group is applied as a whole
or not at all. `Atomic` and `Whole` are that assumption on the service, for a failure
that says that nothing was applied and for one that leaves it open, and
`all_or_nothing` is what it makes of the two handlers.
-/

namespace PluginsDatastore

open Calls

variable {c : Context} {svc : Service} {σ σ' : Store} {w : ResponseWriter} {r : Request}
  {s n o : GoString} {resp : Served} {keys : List Key}

/-- The keys lie in one entity group: they have the same furthest ancestor. -/
def OneGroup (keys : List Key) : Prop := ∃ root, ∀ k ∈ keys, k.root = root

/-- Presets of one share id are in one entity group. -/
theorem oneGroup_of_matches (hσ : WellKeyed c σ)
    (h : ∀ k ∈ keys, ∃ p, Has σ k p ∧ Matches s o n p) : OneGroup keys := by
  refine ⟨sharedPresetsKey c s, fun k hk => ?_⟩
  obtain ⟨p, hp, hmatches⟩ := h k hk
  rw [(hσ.filed hp).root_eq, hmatches.shareId]

/-- A deletion within one entity group that fails is applied to none of its keys. -/
def Atomic (σ σ' : Store) : (call : Call) → call.Reply → Prop
  | .delete keys, some _ => OneGroup keys → σ' = σ
  | _, _ => True

/-- The service that may fail, with deletions that are atomic within an entity group. -/
def ExecAtomic (svc : Service) (σ : Store) (call : Call) (reply : call.Reply) (σ' : Store) :
    Prop :=
  svc.Exec σ call reply σ' ∧ Atomic σ σ' call reply

/-- A call that does not fail is atomic. -/
theorem execAtomic_exec (svc : Service) (σ : Store) (call : Call) :
    ExecAtomic svc σ call (svc.exec σ call).1 (svc.exec σ call).2 := by
  refine ⟨.ok σ call, ?_⟩
  cases call <;> trivial

/-! ### `removePreset` -/

/-- The presets that a removal is about are gone, and nothing else is changed. -/
structure Removed (r : Request) (σ σ' : Store) : Prop where
  gone : ∀ k p, Has σ k p → Matches (r.formValue "shareId") (r.formValue "ownerId")
    (r.formValue "presetName") p → σ'.get k = none
  kept : ∀ k, (∀ p, Has σ k p → ¬ Matches (r.formValue "shareId") (r.formValue "ownerId")
    (r.formValue "presetName") p) → σ'.get k = σ.get k

theorem removed_eraseAll
    (h : ∀ k, k ∈ keys ↔ ∃ p, Has σ k p ∧ Matches (r.formValue "shareId")
      (r.formValue "ownerId") (r.formValue "presetName") p) :
    Removed r σ (σ.eraseAll keys) where
  gone k p hp hmatches := by
    rw [KeyedStore.get_eraseAll, if_pos ((h k).mpr ⟨p, hp, hmatches⟩)]
  kept k hnone := by
    have hk : k ∉ keys := by
      intro hmem
      obtain ⟨p, hp, hmatches⟩ := (h k).mp hmem
      exact hnone p hp hmatches
    rw [KeyedStore.get_eraseAll, if_neg hk]

/-- The answers of `removePreset`, by how its calls may go. What a deletion that failed
has done is left open, but its keys are in one entity group. -/
theorem removePreset_cases {R : Store → (call : Call) → call.Reply → Store → Prop}
    (hR : ∀ σ call reply σ', R σ call reply σ' → svc.Exec σ call reply σ')
    (hσ : WellKeyed c σ) (h : (removePreset c w r).Runs R σ resp σ') :
    ((∃ err, resp = failed w err) ∧ σ' = σ) ∨ (resp = done w r ∧ Removed r σ σ') ∨
      ∃ keys err, resp = failed w err ∧ R σ (.delete keys) (some err) σ' ∧ OneGroup keys ∧
        Removed r σ (σ.eraseAll keys) := by
  rcases removePreset_inv hR hσ h with
    ⟨err, rfl, rfl⟩ | ⟨keys, hkeys, ⟨rfl, rfl, rfl⟩ | ⟨reply, hdelete, rfl⟩⟩
  · -- the query has failed
    exact .inl ⟨⟨err, rfl⟩, rfl⟩
  · -- nothing matches
    exact .inr (.inl ⟨rfl, removed_eraseAll hkeys⟩)
  · rcases exec_delete_inv (hR _ _ _ _ hdelete) with ⟨rfl, rfl⟩ | ⟨err, deleted, rfl, -, -⟩
    · exact .inr (.inl ⟨rfl, removed_eraseAll hkeys⟩)
    · exact .inr (.inr ⟨keys, err, rfl, hdelete,
        oneGroup_of_matches hσ fun k hk => (hkeys k).mp hk, removed_eraseAll hkeys⟩)

/-- **`removePreset` with an atomic deletion** does all of its work or none. -/
theorem removePreset_atomic (hσ : WellKeyed c σ)
    (h : (removePreset c w r).Runs (ExecAtomic svc) σ resp σ') :
    ((∃ err, resp = failed w err) ∧ σ' = σ) ∨ (resp = done w r ∧ Removed r σ σ') := by
  rcases removePreset_cases (fun _ _ _ _ h => h.1) hσ h with
    hfailed | hdone | ⟨keys, err, hresp, ⟨-, hatomic⟩, hgroup, -⟩
  · exact .inl hfailed
  · exact .inr hdone
  · exact .inl ⟨⟨err, hresp⟩, hatomic hgroup⟩

/-- A deletion within one entity group is applied to all of its keys or to none, and may
answer an error either way. -/
def Whole (σ σ' : Store) : (call : Call) → call.Reply → Prop
  | .delete keys, some _ => OneGroup keys → σ' = σ ∨ σ' = σ.eraseAll keys
  | _, _ => True

/-- The service that may fail, with deletions that are applied as a whole or not at all
within an entity group. -/
def ExecWhole (svc : Service) (σ : Store) (call : Call) (reply : call.Reply) (σ' : Store) :
    Prop :=
  svc.Exec σ call reply σ' ∧ Whole σ σ' call reply

/-- Where the error of a deletion does not tell whether it was applied, the error of
`removePreset` does not either. There still is no removal of a part. -/
theorem removePreset_whole (hσ : WellKeyed c σ)
    (h : (removePreset c w r).Runs (ExecWhole svc) σ resp σ') :
    ((∃ err, resp = failed w err) ∧ (σ' = σ ∨ Removed r σ σ')) ∨
      (resp = done w r ∧ Removed r σ σ') := by
  rcases removePreset_cases (fun _ _ _ _ h => h.1) hσ h with
    ⟨herr, hsame⟩ | hdone | ⟨keys, err, hresp, ⟨-, hwhole⟩, hgroup, hall⟩
  · exact .inl ⟨herr, .inl hsame⟩
  · exact .inr hdone
  · refine .inl ⟨⟨err, hresp⟩, ?_⟩
    rcases hwhole hgroup with hsame | herased
    · exact .inl hsame
    · exact .inr (herased ▸ hall)

/-! ### `loadPreset` -/

/-- **`loadPreset` when calls fail** answers an error or lists all presets. -/
theorem loadPreset_whole (hσ : WellKeyed c σ)
    (h : (loadPreset c w r).Runs svc.Exec σ resp σ') :
    σ' = σ ∧ ((∃ err, resp = failed w err) ∨ resp = .ok (writeJson w r
      (.presets (.of (presetsBelow c svc σ (r.formValue "shareId")))))) := by
  obtain ⟨hsame, hfailed | ⟨res, hquery, rfl⟩⟩ := loadPreset_inv h
  · exact ⟨hsame, .inl hfailed⟩
  · refine ⟨hsame, ?_⟩
    have hprefix := exec_runQuery_prefix hquery
    rw [Service.results_of_not_distinct rfl] at hprefix
    -- what was yielded before a failure was found, and loads
    have hload : ∀ e ∈ res.results, (SharedPreset.load e.2).2 = none :=
      fun e he => hσ.load_found (List.IsPrefix.subset hprefix he)
    by_cases hdone : res.final = .done
    · -- the query yielded all its results
      have hall := (exec_runQuery_inv hquery).2 hdone
      rw [Service.results_of_not_distinct rfl] at hall
      rw [loaded_eq hload hdone, hall]
      exact .inr rfl
    · exact .inl ⟨res.final, loaded_of_final_ne hload hdone⟩

/-- **All or nothing.** From every reachable store and for every request handled alone,
whichever of its calls fail and wherever its query does: `removePreset` answers an error
and changes nothing, or answers success and has deleted exactly the presets under its
share id with its owner id, and with its preset name when it has one; `loadPreset`
changes nothing, and answers an error or the list of all presets under its share id.
Where a deletion that is answered by an error may have been applied as a whole,
`removePreset` answers an error and has deleted these presets or nothing, or answers
success and has deleted them. -/
theorem all_or_nothing (c : Context) (svc : Service) (σ : Store) (hσ : Reachable c svc σ)
    (r : Request) (resp : Served) (σ' : Store) :
    ((removePreset c {} r).Runs (ExecAtomic svc) σ resp σ' →
      ((∃ err, resp = failed {} err) ∧ σ' = σ) ∨ (resp = done {} r ∧ Removed r σ σ')) ∧
    ((loadPreset c {} r).Runs svc.Exec σ resp σ' →
      σ' = σ ∧ ((∃ err, resp = failed {} err) ∨
        ∃ l : List SharedPreset, resp = .ok (writeJson {} r (.presets (.of l))) ∧
          (l : Multiset SharedPreset) = shared σ (r.formValue "shareId"))) ∧
    ((removePreset c {} r).Runs (ExecWhole svc) σ resp σ' →
      ((∃ err, resp = failed {} err) ∧ (σ' = σ ∨ Removed r σ σ')) ∨
        (resp = done {} r ∧ Removed r σ σ')) := by
  refine ⟨removePreset_atomic hσ.wellKeyed, fun h => ?_, removePreset_whole hσ.wellKeyed⟩
  obtain ⟨hsame, hfailed | hlist⟩ := loadPreset_whole hσ.wellKeyed h
  · exact ⟨hsame, .inl hfailed⟩
  · exact ⟨hsame, .inr ⟨_, hlist, coe_presetsBelow hσ.wellKeyed _⟩⟩

/-- Ann's removal has removed her preset, and so has the one whose deletion was applied but
answered by an error. A list of the share id was complete before. -/
theorem all_or_nothing_ann :
    Removed Sample.ann (Sample.after [⟨.store, Sample.ann⟩])
        (Sample.after [⟨.store, Sample.ann⟩, ⟨.remove, Sample.ann⟩]) ∧
      (∃ σ', (removePreset Sample.context {} Sample.ann).Runs (ExecWhole .inKeyOrder)
          (Sample.after [⟨.store, Sample.ann⟩]) (failed {} (.new "timeout")) σ' ∧
        Removed Sample.ann (Sample.after [⟨.store, Sample.ann⟩]) σ') ∧
      ∃ l : List SharedPreset,
        (serve Sample.context .inKeyOrder (Sample.after [⟨.store, Sample.ann⟩])
          ⟨.load, Sample.ann⟩).1 = .ok (writeJson {} Sample.ann (.presets (.of l))) ∧
        (l : Multiset SharedPreset) = shared (Sample.after [⟨.store, Sample.ann⟩]) "team" := by
  have hσ := Sample.reachable_after [⟨.store, Sample.ann⟩]
  have hremove := (all_or_nothing Sample.context .inKeyOrder _ hσ Sample.ann _ _).1
    (Prog.runs_of_eval (execAtomic_exec _) (removePreset Sample.context {} Sample.ann) _)
  have hload := (all_or_nothing Sample.context .inKeyOrder _ hσ Sample.ann _ _).2.1
    (Prog.runs_of_eval (fun σ call => .ok σ call) (loadPreset Sample.context {} Sample.ann) _)
  -- the deletion is applied, and answered by an error
  have hruns : ∃ σ', (removePreset Sample.context {} Sample.ann).Runs (ExecWhole .inKeyOrder)
      (Sample.after [⟨.store, Sample.ann⟩]) (failed {} (.new "timeout")) σ' ∧
      σ'.get (presetKey Sample.context "team" "wide") = none :=
    ⟨_, by
      rw [removePreset_eq]
      exact .call ⟨.ok _ _, trivial⟩ (.call ⟨.deleteFails _ _ _ (.new "timeout")
        (List.Subset.refl _), fun _ => .inr rfl⟩ (.ret _ _)), by decide⟩
  obtain ⟨σ', hruns, hgone⟩ := hruns
  have hfails := (all_or_nothing Sample.context .inKeyOrder _ hσ Sample.ann _ _).2.2 hruns
  refine ⟨?_, ⟨σ', hruns, ?_⟩, ?_⟩
  · rcases hremove with ⟨-, hsame⟩ | ⟨-, hremoved⟩
    · -- the preset is not there any more
      have hget := congrArg (KeyedStore.get · (presetKey Sample.context "team" "wide")) hsame
      exact absurd hget (by decide +kernel)
    · exact hremoved
  · rcases hfails with ⟨-, hsame | hremoved⟩ | ⟨-, hremoved⟩
    · rw [hsame] at hgone
      exact absurd hgone (by decide)
    · exact hremoved
    · exact hremoved
  · rcases hload.2 with ⟨err, hfailed⟩ | hlist
    · have hstatus : ((loadPreset Sample.context {} Sample.ann).eval Service.inKeyOrder.exec
          (Sample.after [⟨.store, Sample.ann⟩])).1.map (·.status) = .ok none := by decide +kernel
      rw [hfailed] at hstatus
      exact absurd hstatus (by simp [failed, httpError, Except.map, ResponseWriter.writeHeader])
    · exact hlist

end PluginsDatastore
