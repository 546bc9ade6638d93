import PluginsDatastore.DataStore.Evaluation

/-!
# One preset for every name

Nothing enforces that a share id has at most one preset of a name. It follows
from the key, which is built from the two, as long as there is a name
(`named_presets_unique`). Without a name the key is incomplete, and every store
that is granted makes a new entity (`unnamed_presets_not_unique`).
-/

namespace PluginsDatastore

open Calls

variable {c : Context} {svc : Service} {σ : Store} {r : Request} {k k' : Key}
  {p p' : SharedPreset}

/-- A share id has at most one preset of a name. -/
def UniquePresets (σ : Store) : Prop :=
  ∀ k k' p p', Has σ k p → Has σ k' p' → p.shareId = p'.shareId →
    p.presetName = p'.presetName → k = k'

/-- **Two stores without a name leave two presets.** -/
theorem unnamed_presets_not_unique :
    ¬ UniquePresets
      (Sample.after [⟨.store, Sample.annUnnamed⟩, ⟨.store, Sample.annUnnamed⟩]) := by
  intro hunique
  -- the two stores have got the ids 1 and 2
  have hfirst : Has (Sample.after [⟨.store, Sample.annUnnamed⟩, ⟨.store, Sample.annUnnamed⟩])
      ((presetKey Sample.context "team" "").withID 1) (submitted Sample.annUnnamed) := by
    unfold Has
    decide
  have hsecond : Has (Sample.after [⟨.store, Sample.annUnnamed⟩, ⟨.store, Sample.annUnnamed⟩])
      ((presetKey Sample.context "team" "").withID 2) (submitted Sample.annUnnamed) := by
    unfold Has
    decide
  have hkeys := hunique _ _ _ _ hfirst hsecond rfl rfl
  exact absurd hkeys (by decide)

/-- The preset of a pair is the submitted one and at the key of the pair. -/
structure Stored (c : Context) (σ : Store) (r : Request) : Prop where
  has : Has σ (presetKey c (submitted r).shareId (submitted r).presetName) (submitted r)
  only : ∀ k p, Has σ k p → p.shareId = (submitted r).shareId →
    p.presetName = (submitted r).presetName →
      k = presetKey c (submitted r).shareId (submitted r).presetName ∧ p = submitted r

theorem stored_written (hσ : WellKeyed c σ) (hs : (submitted r).shareId ≠ "")
    (hn : (submitted r).presetName ≠ "") : Stored c (written c svc r σ) r := by
  have hhas : Has (written c svc r σ)
      (presetKey c (submitted r).shareId (submitted r).presetName) (submitted r) := by
    have hkey : writtenKey c svc r σ = _ := writtenKey_named hn
    rw [← hkey]
    exact has_submitted
  refine ⟨hhas, fun k p hp hshare hname => ?_⟩
  obtain rfl := (hσ.written hs).key_unique hp hhas hshare hname (by rw [hname]; exact hn)
  exact ⟨rfl, hp.unique hhas⟩

/-- An owner whose preset is stored may store it again. -/
theorem Stored.granted (h : Stored c σ r) : Granted σ r :=
  .inr h.has.holds

/-- A granted request with a share id writes its preset. -/
theorem serve_granted (hσ : WellKeyed c σ) (hs : (submitted r).shareId ≠ "")
    (hgranted : Granted σ r) : (serve c svc σ ⟨.store, r⟩).2 = written c svc r σ :=
  congrArg Prod.snd (eval_storePreset_granted hσ hs hgranted)

/-- A granted request with a name, repeated any number of times, leaves its preset as the
only one of its pair. -/
theorem stored_repeated (hσ : WellKeyed c σ) (hs : (submitted r).shareId ≠ "")
    (hn : (submitted r).presetName ≠ "") (hgranted : Granted σ r) (m : ℕ) :
    Stored c (serveAll c svc σ (List.replicate (m + 1) ⟨.store, r⟩)) r := by
  -- the first request stores the preset, and every further one finds it its owner's
  induction m generalizing σ with
  | zero =>
    show Stored c (serve c svc σ ⟨.store, r⟩).2 r
    rw [serve_granted hσ hs hgranted]
    exact stored_written hσ hs hn
  | succ m ih =>
    show Stored c (serveAll c svc (serve c svc σ ⟨.store, r⟩).2 _) r
    rw [serve_granted hσ hs hgranted]
    exact ih (hσ.written hs) (stored_written hσ hs hn).granted

/-- The store `σ'` has one entity more than `σ`, the preset that the request submits. -/
def Further (σ σ' : Store) (r : Request) : Prop :=
  ∃ k, σ.get k = none ∧ Has σ' k (submitted r) ∧ ∀ k', k' ≠ k → σ'.get k' = σ.get k'

/-- A granted store without a name makes a further entity. -/
theorem further_unnamed (hσ : WellKeyed c σ) (hs : (submitted r).shareId ≠ "")
    (hn : (submitted r).presetName = "") (hgranted : Granted σ r) :
    Further σ (serve c svc σ ⟨.store, r⟩).2 r := by
  rw [serve_granted hσ hs hgranted]
  -- its key is not even one that was used before
  exact ⟨writtenKey c svc r σ, KeyedStore.get_eq_none (writtenKey_unnamed_notMem hn),
    has_submitted, fun k' hk' => KeyedStore.get_put_of_ne hk'⟩

/-- **Presets with a name are unique.** In every reachable store a share id has at
most one preset of a name; and a request with a share id and a name that is
granted, answered in full and repeated any number of times, leaves exactly one
preset of its pair, the submitted one. A request without a name that is granted makes
a further entity each time. -/
theorem named_presets_unique (c : Context) (svc : Service) (σ : Store)
    (hσ : Reachable c svc σ) :
    (∀ k k' p p', Has σ k p → Has σ k' p' → p.shareId = p'.shareId →
      p.presetName = p'.presetName → p.presetName ≠ "" → k = k') ∧
    (∀ r, (submitted r).shareId ≠ "" → (submitted r).presetName ≠ "" → Granted σ r →
      ∀ m, Stored c (serveAll c svc σ (List.replicate (m + 1) ⟨.store, r⟩)) r) ∧
    ∀ r, (submitted r).shareId ≠ "" → (submitted r).presetName = "" → Granted σ r →
      Further σ (serve c svc σ ⟨.store, r⟩).2 r :=
  ⟨fun _ _ _ _ => hσ.wellKeyed.key_unique, fun _ => stored_repeated hσ.wellKeyed,
    fun _ => further_unnamed hσ.wellKeyed⟩

/-- Nothing is taken in the empty store. -/
theorem granted_empty (r : Request) : Granted KeyedStore.empty r := .inl not_taken_empty

/-- Ann may store her preset twice, and has it once. Without a name she stores a further
one. -/
theorem named_presets_unique_ann :
    Stored Sample.context (Sample.after [⟨.store, Sample.ann⟩, ⟨.store, Sample.ann⟩])
      Sample.ann ∧
    Further (Sample.after [⟨.store, Sample.ann⟩])
      (Sample.after [⟨.store, Sample.ann⟩, ⟨.store, Sample.annUnnamed⟩]) Sample.annUnnamed := by
  have hfree : ¬ Taken (Sample.after [⟨.store, Sample.ann⟩]) "team" "" := by
    have hwritten : Sample.after [⟨.store, Sample.ann⟩] = _ :=
      serve_granted WellKeyed.empty (by decide) (granted_empty Sample.ann)
    rintro ⟨o, ho⟩
    rw [hwritten] at ho
    rcases holds_written ho with ⟨-, hname, -⟩ | hempty
    · exact absurd hname (by decide)
    · exact not_taken_empty ⟨o, hempty⟩
  exact ⟨(named_presets_unique Sample.context .inKeyOrder KeyedStore.empty Reachable.empty).2.1
      Sample.ann (by decide) (by decide) (granted_empty _) 1,
    (named_presets_unique Sample.context .inKeyOrder _ (Sample.reachable_after _)).2.2
      Sample.annUnnamed (by decide) (by decide) (.inl hfree)⟩

end PluginsDatastore
