import Mathlib.Logic.Function.Basic
import PluginsDatastore.DataStore.Contents

/-!
# The abstract preset store

What the handlers are for, said without keys and queries: every share id has a
multiset of presets. A preset may be stored when no preset of its share id has
its name or one of that name has its owner. With a name it takes the place of the
presets of that name, without one it is added. A removal drops an owner's
presets, or those of one name.

`PresetStore` is this specification, and `shared` maps a store of the datastore
to it. `shared_serve` is the simulation: each request, answered in full, does to
the presets what the specification says. `handlers_implement_presetStore` reads
it off the responses of `loadPreset`.
-/

namespace PluginsDatastore

open Calls

/-- The presets of every share id. -/
abbrev PresetStore : Type := GoString → Multiset SharedPreset

namespace PresetStore

/-- The store without presets. -/
def init : PresetStore := fun _ => 0

/-- A preset may be stored: its name is not in use, or its owner uses it. -/
def MayStore (L : PresetStore) (p : SharedPreset) : Prop :=
  (∀ q ∈ L p.shareId, q.presetName ≠ p.presetName) ∨
    ∃ q ∈ L p.shareId, q.presetName = p.presetName ∧ q.ownerId = p.ownerId

instance (L : PresetStore) (p : SharedPreset) : Decidable (L.MayStore p) :=
  @instDecidableOr _ _ Multiset.decidableForallMultiset Multiset.decidableExistsMultiset

/-- Store a preset. -/
def store (L : PresetStore) (p : SharedPreset) : PresetStore :=
  if p.shareId ≠ "" ∧ L.MayStore p then
    Function.update L p.shareId (p ::ₘ
      if p.presetName = "" then L p.shareId
      else (L p.shareId).filter fun q => q.presetName ≠ p.presetName)
  else L

/-- Remove the presets of an owner, all or those of one name. -/
def remove (L : PresetStore) (o s n : GoString) : PresetStore :=
  Function.update L s ((L s).filter fun q => ¬ (q.ownerId = o ∧ (n ≠ "" → q.presetName = n)))

/-- What a request asks for. -/
def apply (L : PresetStore) (x : Inquiry) : PresetStore :=
  match x.endpoint with
  | .store => L.store (submitted x.request)
  | .remove => L.remove (x.request.formValue "ownerId") (x.request.formValue "shareId")
      (x.request.formValue "presetName")
  | .load => L
  | .getShareIds => L

end PresetStore

variable {c : Context} {svc : Service} {σ : Store} {r : Request} {s : GoString}

theorem granted_iff_mayStore (hσ : WellKeyed c σ) :
    Granted σ r ↔ PresetStore.MayStore (shared σ) (submitted r) := by
  unfold Granted Taken PresetStore.MayStore
  refine or_congr ?_ (holds_iff hσ)
  refine ⟨?_, ?_⟩
  · intro hfree q hq hn
    exact hfree ⟨q.ownerId, (holds_iff hσ).mpr ⟨q, hq, hn, rfl⟩⟩
  · intro hfree h
    obtain ⟨o, ho⟩ := h
    obtain ⟨q, hq, hn, -⟩ := (holds_iff hσ).mp ho
    exact hfree q hq hn

/-- A stored preset, share id by share id. -/
theorem shared_written (hσ : WellKeyed c σ) (hs : (submitted r).shareId ≠ "")
    (hgranted : Granted σ r) :
    shared (written c svc r σ) = PresetStore.store (shared σ) (submitted r) := by
  unfold PresetStore.store
  rw [if_pos ⟨hs, (granted_iff_mayStore hσ).mp hgranted⟩]
  funext t
  unfold shared
  rw [presets_written hσ hs]
  by_cases ht : t = (submitted r).shareId
  · -- the share id of the preset
    subst ht
    have hcons := Multiset.filter_cons_of_pos (a := submitted r)
      (p := fun p => p.shareId = (submitted r).shareId)
    rw [Function.update_self, hcons _ rfl, Multiset.filter_filter]
    refine congrArg _ ?_
    by_cases hn : (submitted r).presetName = ""
    · -- without a name nothing is dropped
      rw [if_pos hn]
      refine Multiset.filter_congr fun p _ => ?_
      simp [hn]
    · rw [if_neg hn, Multiset.filter_filter]
      refine Multiset.filter_congr fun p _ => ?_
      refine ⟨?_, ?_⟩
      · intro hex
        obtain ⟨hshare, hor⟩ := hex
        exact ⟨fun hname => (hor.resolve_left hn) ⟨hshare, hname⟩, hshare⟩
      · intro hex
        obtain ⟨hname, hshare⟩ := hex
        exact ⟨hshare, .inr fun hpair => hname hpair.2⟩
  · -- another share id keeps its presets
    have hcons := Multiset.filter_cons_of_neg (a := submitted r) (p := fun p => p.shareId = t)
    rw [Function.update_of_ne ht, hcons _ (fun h => ht h.symm), Multiset.filter_filter]
    refine Multiset.filter_congr fun p _ => ?_
    refine and_iff_left_of_imp fun hshare => .inr fun hpair => ?_
    exact ht (hshare.symm.trans hpair.1)

/-- A removal, share id by share id. -/
theorem shared_removed (hσ : WellKeyed c σ) {o n : GoString} {keys : List Key}
    (h : ∀ k, k ∈ keys ↔ ∃ p, Has σ k p ∧ Matches s o n p) :
    shared (σ.eraseAll keys) = PresetStore.remove (shared σ) o s n := by
  have hmatches : ∀ k p, Has σ k p →
      (k ∈ keys ↔ p.shareId = s ∧ p.ownerId = o ∧ (n ≠ "" → p.presetName = n)) := by
    intro k p hp
    rw [h]
    refine ⟨?_, ?_⟩
    · intro hex
      obtain ⟨p', hp', hm⟩ := hex
      obtain rfl := hp.unique hp'
      exact ⟨hm.shareId, hm.ownerId, hm.presetName⟩
    · intro hex
      obtain ⟨hs, ho, hn⟩ := hex
      exact ⟨p, hp, hs, ho, hn⟩
  unfold PresetStore.remove
  funext t
  unfold shared
  rw [presets_eraseAll hσ hmatches]
  by_cases ht : t = s
  · -- filtering by share id and by match commute
    subst ht
    rw [Function.update_self, Multiset.filter_filter, Multiset.filter_filter]
    refine Multiset.filter_congr fun p _ => ?_
    refine ⟨?_, ?_⟩
    · intro hex
      obtain ⟨hshare, hnot⟩ := hex
      exact ⟨fun hm => hnot ⟨hshare, hm⟩, hshare⟩
    · intro hex
      obtain ⟨hnot, hshare⟩ := hex
      exact ⟨hshare, fun hm => hnot hm.2⟩
  · rw [Function.update_of_ne ht, Multiset.filter_filter]
    refine Multiset.filter_congr fun p _ => ?_
    exact and_iff_left_of_imp fun hshare hm => ht (hshare.symm.trans hm.1)

/-- Removing below the empty share id removes nothing. -/
theorem PresetStore.remove_of_eq_zero {L : PresetStore} (h : L s = 0) (o n : GoString) :
    L.remove o s n = L := by
  unfold PresetStore.remove
  rw [h, Multiset.filter_zero, ← h, Function.update_eq_self]

/-- **The simulation.** A request does to the presets what the specification says. -/
theorem shared_serve (hσ : WellKeyed c σ) (x : Inquiry) :
    shared (serve c svc σ x).2 = PresetStore.apply (shared σ) x := by
  obtain ⟨endpoint, r⟩ := x
  cases endpoint with
  | load => exact congrArg shared (eval_loadPreset_state c {} r σ)
  | getShareIds => exact congrArg (fun out => shared out.2) (eval_getShareIds {} r σ)
  | store =>
    show shared ((storePreset c {} r).eval svc.exec σ).2 =
      PresetStore.store (shared σ) (submitted r)
    by_cases hs : (submitted r).shareId = ""
    · -- both sides refuse a preset without a share id
      rw [eval_storePreset_noShare hs, PresetStore.store, if_neg (fun h => h.1 hs)]
    · by_cases hgranted : Granted σ r
      · rw [eval_storePreset_granted hσ hs hgranted]
        exact shared_written hσ hs hgranted
      · rw [eval_storePreset_refused hσ hs hgranted, PresetStore.store,
          if_neg (fun h => hgranted ((granted_iff_mayStore hσ).mpr h.2))]
  | remove =>
    show shared ((removePreset c {} r).eval svc.exec σ).2 =
      PresetStore.remove (shared σ) (r.formValue "ownerId") (r.formValue "shareId")
        (r.formValue "presetName")
    by_cases hs : r.formValue "shareId" = ""
    · rw [eval_removePreset_noShare hσ hs,
        PresetStore.remove_of_eq_zero (by rw [hs]; exact shared_empty hσ)]
    · rw [eval_removePreset hσ hs]
      exact shared_removed hσ fun k => mem_foundKeys hσ

/-- The specification follows every run of requests answered in full. -/
theorem shared_serveAll (hσ : WellKeyed c σ) (xs : List Inquiry) :
    shared (serveAll c svc σ xs) = xs.foldl PresetStore.apply (shared σ) := by
  induction xs generalizing σ with
  | nil => rfl
  | cons x xs ih =>
    have hnext : WellKeyed c (serve c svc σ x).2 := hσ.serves (serves_serve x)
    calc shared (serveAll c svc (serve c svc σ x).2 xs)
        = xs.foldl PresetStore.apply (shared (serve c svc σ x).2) := ih hnext
      _ = xs.foldl PresetStore.apply (PresetStore.apply (shared σ) x) := by rw [shared_serve hσ x]

/-- **The handlers implement the abstract preset store.** After any sequence of
requests answered in full, `loadPreset` for a share id writes a list of exactly
the presets that the specification has there, an empty list when there are none. -/
theorem handlers_implement_presetStore (c : Context) (svc : Service) (xs : List Inquiry)
    (r : Request) (hs : r.formValue "shareId" ≠ "") :
    ∃ l : List SharedPreset,
      (serve c svc (serveAll c svc KeyedStore.empty xs) ⟨.load, r⟩).1 =
        .ok (writeJson {} r (.presets (.of l))) ∧
      (l : Multiset SharedPreset) =
        xs.foldl PresetStore.apply PresetStore.init (r.formValue "shareId") := by
  have hσ : WellKeyed c (serveAll c svc KeyedStore.empty xs) :=
    (Reachable.empty.serveAll xs).wellKeyed
  refine ⟨presetsBelow c svc (serveAll c svc KeyedStore.empty xs) (r.formValue "shareId"), ?_, ?_⟩
  · exact congrArg Prod.fst (eval_loadPreset hσ hs)
  · calc (presetsBelow c svc (serveAll c svc KeyedStore.empty xs) (r.formValue "shareId") :
          Multiset SharedPreset)
        = shared (serveAll c svc KeyedStore.empty xs) (r.formValue "shareId") :=
          coe_presetsBelow hσ _
      _ = xs.foldl PresetStore.apply (shared KeyedStore.empty) (r.formValue "shareId") := by
          rw [shared_serveAll WellKeyed.empty]
      _ = xs.foldl PresetStore.apply PresetStore.init (r.formValue "shareId") := rfl

/-- Ann stores a preset, Bob is refused one of that name, and Ann's is listed. -/
theorem handlers_implement_presetStore_refused :
    ∃ l : List SharedPreset,
      (serve Sample.context .inKeyOrder (Sample.after [⟨.store, Sample.ann⟩, ⟨.store, Sample.bob⟩])
        ⟨.load, Sample.bob⟩).1 = .ok (writeJson {} Sample.bob (.presets (.of l))) ∧
      (l : Multiset SharedPreset) = {submitted Sample.ann} := by
  obtain ⟨l, hresp, hl⟩ := handlers_implement_presetStore Sample.context .inKeyOrder
    [⟨.store, Sample.ann⟩, ⟨.store, Sample.bob⟩] Sample.bob (by decide)
  refine ⟨l, hresp, hl.trans ?_⟩
  decide

end PluginsDatastore
