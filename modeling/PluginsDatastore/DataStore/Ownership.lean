import PluginsDatastore.DataStore.Runs

/-!
# Ownership over sequential runs

A preset is changed and deleted by its owner only, and all presets of one share
id and one name have one owner. Both rest on the check of `storePreset`, which
looks at the owners of the presets of a name, while the write replaces the
entity of a key: that these are the same entities is `WellKeyed`, and that one
granted owner speaks for all presets of the name is `OwnersAgree`, an invariant
in its turn.

`ownership_safe` adds what follows for a pair of share id and name that passes
from one owner to another: in between, a removal by the first owner has taken
the last preset of the pair.
-/

namespace PluginsDatastore

open Calls

/-- **All presets of a share id and a name have one owner.** -/
def OwnersAgree (σ : Store) : Prop := ∀ s n o o', Holds σ s n o → Holds σ s n o' → o = o'

variable {c : Context} {svc : Service} {σ σ' : Store} {x : Inquiry} {k : Key}
  {p : SharedPreset} {s n o : GoString}

theorem OwnersAgree.empty : OwnersAgree KeyedStore.empty :=
  fun _ _ o _ ho _ => absurd ⟨o, ho⟩ not_taken_empty

/-- The only owner that a granted request may find for its pair is its own. -/
theorem Granted.owner_eq {r : Request} (h : Granted σ r) (hagree : OwnersAgree σ)
    (ho : Holds σ (submitted r).shareId (submitted r).presetName o) :
    o = (submitted r).ownerId := by
  rcases h with hfree | hown
  · -- the pair is free
    exact absurd ⟨o, ho⟩ hfree
  · -- the pair is the request's owner's
    exact hagree _ _ _ _ ho hown

/-- **A request leaves other owners' presets alone.** -/
theorem Effect.untouched (hσ : WellKeyed c σ) (hagree : OwnersAgree σ)
    (h : Effect c svc x σ σ') (hp : Has σ k p) (ho : p.ownerId ≠ x.request.formValue "ownerId") :
    Has σ' k p := by
  cases h with
  | none => exact hp
  | write _ hgranted hs =>
    refine has_written.mpr (.inr ⟨?_, hp⟩)
    rintro rfl
    -- the write would replace a preset of the same pair, whose owner is the request's
    obtain ⟨hshare, hname⟩ := hσ.replaced hs hp
    exact ho (hgranted.owner_eq hagree ⟨_, p, hp, hshare, hname, rfl⟩)
  | delete _ keys hkeys =>
    -- only presets of the request's owner are deleted
    refine has_eraseAll.mpr ⟨hp, fun hk => ?_⟩
    obtain ⟨p', hp', hmatches⟩ := hkeys k hk
    obtain rfl := hp.unique hp'
    exact ho hmatches.ownerId

theorem Holds.of_eraseAll {keys : List Key} (h : Holds (σ.eraseAll keys) s n o) :
    Holds σ s n o := by
  obtain ⟨j, p, hp, hrest⟩ := h
  exact ⟨j, p, (has_eraseAll.mp hp).1, hrest⟩

theorem OwnersAgree.effect (hagree : OwnersAgree σ) (h : Effect c svc x σ σ') :
    OwnersAgree σ' := by
  cases h with
  | none => exact hagree
  | delete _ keys _ =>
    intro s n o o' ho ho'
    exact hagree s n o o' ho.of_eraseAll ho'.of_eraseAll
  | write _ hgranted _ =>
    intro s n o o' ho ho'
    -- each of the two presets is the one written, or was there before
    rcases holds_written ho with ⟨rfl, rfl, rfl⟩ | hold
    · rcases holds_written ho' with ⟨-, -, rfl⟩ | hold'
      · rfl
      · exact (hgranted.owner_eq hagree hold').symm
    · rcases holds_written ho' with ⟨rfl, rfl, rfl⟩ | hold'
      · exact hgranted.owner_eq hagree hold
      · exact hagree s n o o' hold hold'

theorem Reachable.ownersAgree (h : Reachable c svc σ) : OwnersAgree σ := by
  obtain ⟨xs, hxs⟩ := h
  -- the two invariants go together along the run
  have hboth : WellKeyed c σ ∧ OwnersAgree σ := by
    refine hxs.preserves (P := fun τ => WellKeyed c τ ∧ OwnersAgree τ) ?_
      ⟨WellKeyed.empty, OwnersAgree.empty⟩
    intro τ y τ' hτ hstep
    exact ⟨hτ.1.serves hstep, hτ.2.effect (hstep.effect hτ.1)⟩
  exact hboth.2

/-- A request that takes the last preset an owner has of a pair is a removal by
that owner, and leaves nobody a preset of the pair. -/
theorem Effect.of_lost (hσ : WellKeyed c σ) (hagree : OwnersAgree σ) (h : Effect c svc x σ σ')
    (ho : Holds σ s n o) (ho' : ¬ Holds σ' s n o) :
    x.endpoint = .remove ∧ x.request.formValue "ownerId" = o ∧
      x.request.formValue "shareId" = s ∧ ¬ Taken σ' s n := by
  have hagree' := hagree.effect h
  obtain ⟨k, p, hp, rfl, rfl, rfl⟩ := ho
  -- other owners' requests leave the preset alone
  have howner : p.ownerId = x.request.formValue "ownerId" := by
    by_contra hne
    exact ho' (h.untouched hσ hagree hp hne).holds
  cases h with
  | none => exact absurd hp.holds ho'
  | write _ _ hs =>
    exfalso
    rcases hp.holds.written hσ hs with hheld | ⟨hshare, hname⟩
    · exact ho' hheld
    · -- the write is of the pair, and the preset written is of the same owner
      rw [← hshare, ← hname, howner] at ho'
      exact ho' holds_submitted
  | delete hx keys hkeys =>
    have hk : k ∈ keys := by
      by_contra hk
      exact ho' (has_eraseAll.mpr ⟨hp, hk⟩).holds
    obtain ⟨p', hp', hmatches⟩ := hkeys k hk
    obtain rfl := hp.unique hp'
    refine ⟨hx, howner.symm, hmatches.shareId.symm, ?_⟩
    -- a preset of the pair that is left would be of the same owner
    intro hex
    obtain ⟨o, ho⟩ := hex
    have hsame := hagree _ _ _ _ ho.of_eraseAll hp.holds
    rw [hsame] at ho
    exact ho' ho

/-- **Ownership is safe over every sequential run.** In every reachable store,
whichever calls failed on the way: the presets of a share id and a name have one
owner; no request changes or deletes an entity of another owner; and where a pair
is held by different owners at different times of a run, some request in between
was a removal by the first owner, made when that owner held the pair, after which
no preset of the pair was left. -/
theorem ownership_safe (c : Context) (svc : Service) (σ : Store) (hσ : Reachable c svc σ) :
    OwnersAgree σ ∧
    (∀ x σ', Serves c svc σ x σ' → ∀ k props, σ.get k = some props →
      indexedValue props "OwnerId" ≠ some (x.request.formValue "ownerId") →
        σ'.get k = some props) ∧
    (∀ xs σ', Trace (Serves c svc) σ xs σ' → ∀ s n o o', Holds σ s n o → Holds σ' s n o' →
      o ≠ o' → ∃ xs₁ x xs₂ τ τ', xs = xs₁ ++ x :: xs₂ ∧ Trace (Serves c svc) σ xs₁ τ ∧
        Serves c svc τ x τ' ∧ Trace (Serves c svc) τ' xs₂ σ' ∧ Holds τ s n o ∧
        x.endpoint = .remove ∧ x.request.formValue "ownerId" = o ∧
        x.request.formValue "shareId" = s ∧ ¬ Taken τ' s n) := by
  refine ⟨hσ.ownersAgree, ?_, ?_⟩
  · -- no request touches another owner's entity
    intro x σ' hx k props hget howner
    obtain ⟨p, rfl, hp, -⟩ := hσ.wellKeyed.exists_has hget
    rw [SharedPreset.indexedValue_ownerId, ne_eq, Option.some.injEq] at howner
    exact (hx.effect hσ.wellKeyed).untouched hσ.wellKeyed hσ.ownersAgree hp howner
  · -- some step of the run lost the first owner's hold
    intro xs σ' hxs s n o o' ho ho' hne
    have hlost : ¬ Holds σ' s n o := by
      intro h
      exact hne ((hσ.trace hxs).ownersAgree s n o o' h ho')
    obtain ⟨xs₁, x, xs₂, τ, τ', rfl, hpre, hstep, hpost, hτ, hτ'⟩ :=
      hxs.exists_switch (P := fun τ => Holds τ s n o) ho hlost
    have hreach := hσ.trace hpre
    obtain ⟨hx, hxo, hxs, hfree⟩ :=
      (hstep.effect hreach.wellKeyed).of_lost hreach.wellKeyed hreach.ownersAgree hτ hτ'
    exact ⟨xs₁, x, xs₂, τ, τ', rfl, hpre, hstep, hpost, hτ, hx, hxo, hxs, hfree⟩

/-- A preset that Ann has stored is still there after Bob's attempt to store one
of the same name. -/
theorem ownership_safe_ann_bob :
    (serve Sample.context .inKeyOrder (Sample.after [⟨.store, Sample.ann⟩])
      ⟨.store, Sample.bob⟩).2.get (presetKey Sample.context "team" "wide") =
        some (submitted Sample.ann).save := by
  have hsafe := ownership_safe Sample.context .inKeyOrder (Sample.after [⟨.store, Sample.ann⟩])
    (Sample.reachable_after _)
  exact hsafe.2.1 _ _ (serves_serve ⟨.store, Sample.bob⟩) _ _ (by decide) (by decide)

end PluginsDatastore
