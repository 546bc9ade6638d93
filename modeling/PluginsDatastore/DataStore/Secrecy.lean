import PluginsDatastore.DataStore.Agreement

/-!
# What other clients learn of an owner id

Two runs are compared that differ in the owner id of one client only, `a` in the
one and `b` in the other, where no other client uses either. The stores of the
two runs stay `Related`: the same keys hold the same presets up to the renaming
of `a` to `b` in their owners. A query of another client is about the same
entities in both, so it gets the same counts, keys and share ids.

The responses of `storePreset`, `removePreset` and `getShareIds` are therefore
the same in both runs, to the byte (`other_responses`). That of `loadPreset` is
not: it lists the presets with their owner ids (`owner_id_is_listed`), and the
lists of the two runs differ in just these.
-/

namespace PluginsDatastore

open Calls

/-! ### Renaming an owner -/

/-- The owner id with `a` renamed to `b`. -/
def renameOwner (a b o : GoString) : GoString := if o = a then b else o

/-- The preset with the owner `a` renamed to `b`. -/
def SharedPreset.rename (a b : GoString) (p : SharedPreset) : SharedPreset :=
  { p with ownerId := renameOwner a b p.ownerId }

/-- A request that the client with the owner id in question sends, with whatever
owner id that is, or one that another client sends. -/
structure Message where
  byOwner : Bool
  inquiry : Inquiry
  deriving DecidableEq

/-- The request, when the owner id in question is `o`. -/
def Message.sent (m : Message) (o : GoString) : Inquiry :=
  if m.byOwner then ⟨m.inquiry.endpoint, m.inquiry.request.withValue "ownerId" o⟩
  else m.inquiry

variable {c : Context} {svc : Service} {a b o s n : GoString} {σ τ : Store} {k : Key}
  {p : SharedPreset} {r r' : Request}

/-- Renaming tells owners apart that are not `b`. -/
theorem renameOwner_inj {o' : GoString} (ho : o ≠ b) (ho' : o' ≠ b) :
    renameOwner a b o = renameOwner a b o' ↔ o = o' := by
  unfold renameOwner
  by_cases h : o = a
  · by_cases h' : o' = a
    · simp [h, h']
    · -- one of them becomes `b`, which the other is not
      rw [if_pos h, if_neg h', h]
      exact ⟨fun heq => absurd heq.symm ho', fun heq => absurd heq.symm h'⟩
  · by_cases h' : o' = a
    · rw [if_neg h, if_pos h', h']
      exact ⟨fun heq => absurd heq ho, fun heq => absurd heq h⟩
    · rw [if_neg h, if_neg h']

theorem renameOwner_of_ne (h : o ≠ a) : renameOwner a b o = o := if_neg h

theorem renameOwner_self : renameOwner a b a = b := if_pos rfl

/-! ### Requests that ask for the same up to the renaming -/

/-- The requests `r` and `r'` have the same form values, but for an owner id
renamed from `a` to `b`. -/
structure Alike (a b : GoString) (r r' : Request) : Prop where
  ownerId : r'.formValue "ownerId" = renameOwner a b (r.formValue "ownerId")
  ownerId_ne : r.formValue "ownerId" ≠ b
  other : ∀ key : GoString, key ≠ "ownerId" → r'.formValue key = r.formValue key

theorem Alike.shareId (h : Alike a b r r') : r'.formValue "shareId" = r.formValue "shareId" :=
  h.other _ (by decide)

theorem Alike.presetName (h : Alike a b r r') :
    r'.formValue "presetName" = r.formValue "presetName" :=
  h.other _ (by decide)

theorem Alike.submitted (h : Alike a b r r') : (submitted r).rename a b = submitted r' := by
  simp only [PluginsDatastore.submitted, SharedPreset.rename, h.ownerId, h.shareId,
    h.other "author" (by decide), h.presetName, h.other "preset" (by decide)]

/-- Another client's request is alike to itself. -/
theorem alike_self (ha : r.formValue "ownerId" ≠ a) (hb : r.formValue "ownerId" ≠ b) :
    Alike a b r r where
  ownerId := (renameOwner_of_ne ha).symm
  ownerId_ne := hb
  other := fun _ _ => rfl

/-- What a message is sent as in the two runs. -/
theorem Message.alike {m : Message} (hab : a ≠ b)
    (hother : m.byOwner = false → m.inquiry.request.formValue "ownerId" ≠ a ∧
      m.inquiry.request.formValue "ownerId" ≠ b) :
    (m.sent a).endpoint = (m.sent b).endpoint ∧
      Alike a b (m.sent a).request (m.sent b).request := by
  obtain ⟨byOwner, x⟩ := m
  cases byOwner with
  | false =>
    -- another client sends the same request in both runs
    obtain ⟨ha, hb⟩ := hother rfl
    exact ⟨rfl, alike_self ha hb⟩
  | true =>
    refine ⟨rfl, ?_, ?_, ?_⟩
    · show (x.request.withValue "ownerId" b).formValue "ownerId" =
        renameOwner a b ((x.request.withValue "ownerId" a).formValue "ownerId")
      rw [Request.formValue_withValue_self, Request.formValue_withValue_self, renameOwner_self]
    · show (x.request.withValue "ownerId" a).formValue "ownerId" ≠ b
      rw [Request.formValue_withValue_self]
      exact hab
    · intro key hkey
      show (x.request.withValue "ownerId" b).formValue key =
        (x.request.withValue "ownerId" a).formValue key
      rw [Request.formValue_withValue_of_ne _ hkey, Request.formValue_withValue_of_ne _ hkey]

/-! ### Stores that hold the same up to the renaming -/

/-- **The relation of the two runs.** -/
structure Related (c : Context) (a b : GoString) (σ τ : Store) : Prop where
  keyed : WellKeyed c σ
  keyed' : WellKeyed c τ
  used : τ.used = σ.used
  owner_ne : ∀ k p, Has σ k p → p.ownerId ≠ b
  has : ∀ k p, Has σ k p → Has τ k (p.rename a b)
  none : ∀ k, σ.get k = none → τ.get k = none

namespace Related

theorem empty : Related c a b KeyedStore.empty KeyedStore.empty where
  keyed := WellKeyed.empty
  keyed' := WellKeyed.empty
  used := rfl
  owner_ne := fun k p hp => absurd hp (by rw [Has, KeyedStore.get_empty]; simp)
  has := fun k p hp => absurd hp (by rw [Has, KeyedStore.get_empty]; simp)
  none := fun k h => h

/-- Every preset of the second store is one of the first, renamed. -/
theorem exists_has (h : Related c a b σ τ) {p' : SharedPreset} (hp' : Has τ k p') :
    ∃ p, Has σ k p ∧ p' = p.rename a b := by
  cases hget : σ.get k with
  | none =>
    -- the key is free in both stores
    rw [Has, h.none k hget] at hp'
    exact absurd hp' (by simp)
  | some props =>
    obtain ⟨p, rfl, hp, -⟩ := h.keyed.exists_has hget
    exact ⟨p, hp, hp'.unique (h.has k p hp)⟩

theorem holds_iff (h : Related c a b σ τ) (ho : o ≠ b) :
    Holds τ s n (renameOwner a b o) ↔ Holds σ s n o := by
  refine ⟨?_, ?_⟩
  · -- the renaming is one-to-one on the owners in question
    intro hex
    obtain ⟨k, p', hp', hs, hn, howner⟩ := hex
    obtain ⟨p, hp, rfl⟩ := h.exists_has hp'
    exact ⟨k, p, hp, hs, hn, (renameOwner_inj (h.owner_ne k p hp) ho).mp howner⟩
  · intro hex
    obtain ⟨k, p, hp, hs, hn, rfl⟩ := hex
    exact ⟨k, p.rename a b, h.has k p hp, hs, hn, rfl⟩

theorem taken_iff (h : Related c a b σ τ) : Taken τ s n ↔ Taken σ s n := by
  refine ⟨?_, ?_⟩
  · intro hex
    obtain ⟨o, k, p', hp', hs, hn, -⟩ := hex
    obtain ⟨p, hp, rfl⟩ := h.exists_has hp'
    exact ⟨p.ownerId, k, p, hp, hs, hn, rfl⟩
  · intro hex
    obtain ⟨o, k, p, hp, hs, hn, -⟩ := hex
    exact ⟨(p.rename a b).ownerId, k, p.rename a b, h.has k p hp, hs, hn, rfl⟩

theorem granted_iff (h : Related c a b σ τ) (hr : Alike a b r r') :
    Granted τ r' ↔ Granted σ r := by
  unfold Granted
  rw [← hr.submitted]
  exact or_congr (not_congr h.taken_iff) (h.holds_iff hr.ownerId_ne)

/-- A query yields the same in both stores when it does of every preset and the
renamed one. -/
theorem found_eq (h : Related c a b σ τ) {q : Query}
    (hq : ∀ k p, Has σ k p → q.yield k (p.rename a b).save = q.yield k p.save) :
    svc.found q τ = svc.found q σ := by
  refine Service.found_congr fun k => ?_
  cases hget : σ.get k with
  | none => rw [h.none k hget]
  | some props =>
    obtain ⟨p, rfl, hp, -⟩ := h.keyed.exists_has hget
    have hget' : τ.get k = some (p.rename a b).save := h.has k p hp
    rw [hget']
    exact hq k p hp

/-! ### A request keeps the relation -/

theorem written (h : Related c a b σ τ) (hr : Alike a b r r') (hs : (submitted r).shareId ≠ "") :
    Related c a b (written c svc r σ) (written c svc r' τ) := by
  have hs' : (PluginsDatastore.submitted r').shareId ≠ "" := by
    rw [← hr.submitted]
    exact hs
  -- both runs write to the same key, a generated id included
  have hkey : writtenKey c svc r' τ = writtenKey c svc r σ := by
    unfold writtenKey Service.putKey
    rw [← hr.submitted, h.used]
    rfl
  refine ⟨h.keyed.written hs, h.keyed'.written hs', ?_, ?_, ?_, ?_⟩
  · show insert (writtenKey c svc r' τ) τ.used = insert (writtenKey c svc r σ) σ.used
    rw [hkey, h.used]
  · intro k p hp
    rcases has_written.mp hp with ⟨-, rfl⟩ | ⟨-, hp⟩
    · exact hr.ownerId_ne
    · exact h.owner_ne k p hp
  · intro k p hp
    rw [has_written, hkey]
    rcases has_written.mp hp with ⟨hk, rfl⟩ | ⟨hk, hp⟩
    · exact .inl ⟨hk, hr.submitted⟩
    · exact .inr ⟨hk, h.has k p hp⟩
  · intro k hk
    by_cases hkw : k = writtenKey c svc r σ
    · -- the key written is not free after the write
      subst hkw
      exact absurd (hk.symm.trans (KeyedStore.get_put_self σ _ _)) (by simp)
    · have hfree : σ.get k = Option.none := (KeyedStore.get_put_of_ne hkw).symm.trans hk
      have hkw' : k ≠ writtenKey c svc r' τ := by
        rw [hkey]
        exact hkw
      exact (KeyedStore.get_put_of_ne hkw').trans (h.none k hfree)

theorem eraseAll (h : Related c a b σ τ) {keys keys' : List Key}
    (hkeys : ∀ k, k ∈ keys' ↔ k ∈ keys) :
    Related c a b (σ.eraseAll keys) (τ.eraseAll keys') := by
  rw [KeyedStore.eraseAll_congr hkeys]
  refine ⟨h.keyed.eraseAll keys, h.keyed'.eraseAll keys, ?_, ?_, ?_, ?_⟩
  · rw [KeyedStore.used_eraseAll, KeyedStore.used_eraseAll, h.used]
  · intro k p hp
    exact h.owner_ne k p (has_eraseAll.mp hp).1
  · intro k p hp
    obtain ⟨hp, hk⟩ := has_eraseAll.mp hp
    exact has_eraseAll.mpr ⟨h.has k p hp, hk⟩
  · intro k hk
    rw [KeyedStore.get_eraseAll] at hk ⊢
    split at hk
    · next hmem => rw [if_pos hmem]
    · next hmem => rw [if_neg hmem, h.none k hk]

/-- A removal finds the presets to remove under the same keys. -/
theorem mem_foundKeys_iff (h : Related c a b σ τ) (hr : Alike a b r r') :
    k ∈ foundKeys c svc r' τ ↔ k ∈ foundKeys c svc r σ := by
  rw [mem_foundKeys h.keyed, mem_foundKeys h.keyed', hr.ownerId, hr.shareId, hr.presetName]
  refine ⟨?_, ?_⟩
  · intro hex
    obtain ⟨p', hp', hm⟩ := hex
    obtain ⟨p, hp, rfl⟩ := h.exists_has hp'
    exact ⟨p, hp, hm.shareId,
      (renameOwner_inj (h.owner_ne k p hp) hr.ownerId_ne).mp hm.ownerId, hm.presetName⟩
  · intro hex
    obtain ⟨p, hp, hm⟩ := hex
    exact ⟨p.rename a b, h.has k p hp, hm.shareId, congrArg (renameOwner a b) hm.ownerId,
      hm.presetName⟩

/-- **One request keeps the stores related.** -/
theorem serve (h : Related c a b σ τ) {x y : Inquiry} (hxy : x.endpoint = y.endpoint)
    (hr : Alike a b x.request y.request) :
    Related c a b (serve c svc σ x).2 (serve c svc τ y).2 := by
  obtain ⟨endpoint, r⟩ := x
  obtain ⟨endpoint', r'⟩ := y
  obtain rfl : endpoint = endpoint' := hxy
  have hshare : r'.formValue "shareId" = r.formValue "shareId" := hr.shareId
  cases endpoint with
  -- the readers leave both stores as they are
  | load =>
    show Related c a b ((loadPreset c {} r).eval svc.exec σ).2
      ((loadPreset c {} r').eval svc.exec τ).2
    rw [eval_loadPreset_state, eval_loadPreset_state]
    exact h
  | getShareIds =>
    show Related c a b ((getShareIds {} r).eval svc.exec σ).2
      ((getShareIds {} r').eval svc.exec τ).2
    rw [eval_getShareIds, eval_getShareIds]
    exact h
  | store =>
    show Related c a b ((storePreset c {} r).eval svc.exec σ).2
      ((storePreset c {} r').eval svc.exec τ).2
    by_cases hs : (submitted r).shareId = ""
    · rw [eval_storePreset_noShare hs, eval_storePreset_noShare (hshare.trans hs)]
      exact h
    · have hs' : (submitted r').shareId ≠ "" := fun hs' => hs (hshare.symm.trans hs')
      -- the check answers the same in both runs
      by_cases hgranted : Granted σ r
      · rw [eval_storePreset_granted h.keyed hs hgranted,
          eval_storePreset_granted h.keyed' hs' ((h.granted_iff hr).mpr hgranted)]
        exact h.written hr hs
      · rw [eval_storePreset_refused h.keyed hs hgranted,
          eval_storePreset_refused h.keyed' hs' (fun hg => hgranted ((h.granted_iff hr).mp hg))]
        exact h
  | remove =>
    show Related c a b ((removePreset c {} r).eval svc.exec σ).2
      ((removePreset c {} r').eval svc.exec τ).2
    by_cases hs : r.formValue "shareId" = ""
    · rw [eval_removePreset_noShare h.keyed hs,
        eval_removePreset_noShare h.keyed' (hshare.trans hs)]
      exact h
    · rw [eval_removePreset h.keyed hs, eval_removePreset h.keyed' (by rw [hshare]; exact hs)]
      exact h.eraseAll fun k => h.mem_foundKeys_iff hr

/-- **The two runs keep the stores related.** -/
theorem serveAll (h : Related c a b σ τ) (hab : a ≠ b) {ms : List Message}
    (hother : ∀ m ∈ ms, m.byOwner = false → m.inquiry.request.formValue "ownerId" ≠ a ∧
      m.inquiry.request.formValue "ownerId" ≠ b) :
    Related c a b (serveAll c svc σ (ms.map (·.sent a)))
      (serveAll c svc τ (ms.map (·.sent b))) := by
  induction ms generalizing σ τ with
  | nil => exact h
  | cons m ms ih =>
    obtain ⟨hendpoint, halike⟩ := Message.alike hab (hother m List.mem_cons_self)
    exact ih (h.serve hendpoint halike) fun m' hm' => hother m' (List.mem_cons_of_mem m hm')

/-! ### What another client is answered -/

theorem shareIdsFound_eq (h : Related c a b σ τ) :
    shareIdsFound svc τ = shareIdsFound svc σ := by
  rw [PluginsDatastore.shareIdsFound_eq, PluginsDatastore.shareIdsFound_eq,
    h.found_eq fun k p _ => rfl]

/-- The presets below a share id are the same but for the renamed owner. -/
theorem presetsBelow_eq (h : Related c a b σ τ) :
    presetsBelow c svc τ s = (presetsBelow c svc σ s).map (SharedPreset.rename a b) := by
  -- the same keys are found, and in the same order
  have hkeys : τ.keysWhere (below c s).isResult = σ.keysWhere (below c s).isResult := by
    ext k
    rw [KeyedStore.mem_keysWhere, KeyedStore.mem_keysWhere]
    refine ⟨?_, ?_⟩
    · intro hex
      obtain ⟨props', hget', hres'⟩ := hex
      obtain ⟨p', rfl, hp', hfiled'⟩ := h.keyed'.exists_has hget'
      obtain ⟨p, hp, rfl⟩ := h.exists_has hp'
      exact ⟨p.save, hp, (h.keyed.filed hp).isResult_below.mpr
        (hfiled'.isResult_below.mp hres' : p.shareId = s)⟩
    · intro hex
      obtain ⟨props, hget, hres⟩ := hex
      obtain ⟨p, rfl, hp, hfiled⟩ := h.keyed.exists_has hget
      have hp' : Has τ k (p.rename a b) := h.has k p hp
      exact ⟨(p.rename a b).save, hp',
        (h.keyed'.filed hp').isResult_below.mpr (hfiled.isResult_below.mp hres)⟩
  unfold presetsBelow Service.found
  rw [hkeys, List.map_map, List.map_map, List.map_map]
  refine List.map_congr_left fun k hk => ?_
  have hmem : k ∈ σ.keysWhere (below c s).isResult := by
    rw [← Finset.mem_val, ← svc.order_coe]
    exact hk
  obtain ⟨props, hget, -⟩ := KeyedStore.mem_keysWhere.mp hmem
  obtain ⟨p, rfl, hp, -⟩ := h.keyed.exists_has hget
  have hget' : τ.get k = some (p.rename a b).save := h.has k p hp
  -- what is delivered is the preset, all properties of it
  show (SharedPreset.load ((below c s).deliver k ((τ.get k).getD [])).2).1 =
    SharedPreset.rename a b (SharedPreset.load ((below c s).deliver k ((σ.get k).getD [])).2).1
  rw [hget, hget']
  rfl

/-- **No response but that of `loadPreset` tells the two stores apart.** -/
theorem response_eq (h : Related c a b σ τ) {x : Inquiry} (hx : x.endpoint ≠ .load) :
    (PluginsDatastore.serve c svc τ x).1 = (PluginsDatastore.serve c svc σ x).1 := by
  obtain ⟨endpoint, r⟩ := x
  cases endpoint with
  | load => exact absurd rfl hx
  | store =>
    show ((storePreset c {} r).eval svc.exec τ).1 = ((storePreset c {} r).eval svc.exec σ).1
    rw [eval_storePreset_answer h.keyed, eval_storePreset_answer h.keyed']
  | remove =>
    show ((removePreset c {} r).eval svc.exec τ).1 = ((removePreset c {} r).eval svc.exec σ).1
    rw [eval_removePreset_answer h.keyed, eval_removePreset_answer h.keyed']
  | getShareIds =>
    show ((getShareIds {} r).eval svc.exec τ).1 = ((getShareIds {} r).eval svc.exec σ).1
    rw [eval_getShareIds, eval_getShareIds, h.shareIdsFound_eq]

/-- **The responses of `loadPreset`** are the same error or two lists that are the
same but for the renamed owner. -/
theorem load_response_eq (h : Related c a b σ τ) (r : Request) :
    (∃ l : List SharedPreset,
      (PluginsDatastore.serve c svc σ ⟨.load, r⟩).1 = .ok (writeJson {} r (.presets (.of l))) ∧
      (PluginsDatastore.serve c svc τ ⟨.load, r⟩).1 =
        .ok (writeJson {} r (.presets (.of (l.map (SharedPreset.rename a b)))))) ∨
    (∃ err, (PluginsDatastore.serve c svc σ ⟨.load, r⟩).1 = failed {} err ∧
      (PluginsDatastore.serve c svc τ ⟨.load, r⟩).1 = failed {} err) := by
  by_cases hs : r.formValue "shareId" = ""
  · -- without a share id nothing is listed, and what is rejected is so in both runs
    have hσ : (PluginsDatastore.serve c svc σ ⟨.load, r⟩).1 = _ :=
      eval_loadPreset_noShare h.keyed hs
    have hτ : (PluginsDatastore.serve c svc τ ⟨.load, r⟩).1 = _ :=
      eval_loadPreset_noShare h.keyed' hs
    rw [hσ, hτ]
    cases svc.rejects (below c (r.formValue "shareId")).forCount with
    | some err => exact .inr ⟨err, rfl, rfl⟩
    | none =>
      cases svc.rejects (below c (r.formValue "shareId")) with
      | some err => exact .inr ⟨err, rfl, rfl⟩
      | none => exact .inl ⟨[], rfl, rfl⟩
  · have hσ : (PluginsDatastore.serve c svc σ ⟨.load, r⟩).1 = _ :=
      congrArg Prod.fst (eval_loadPreset h.keyed hs)
    have hτ : (PluginsDatastore.serve c svc τ ⟨.load, r⟩).1 = _ :=
      congrArg Prod.fst (eval_loadPreset h.keyed' hs)
    refine .inl ⟨presetsBelow c svc σ (r.formValue "shareId"), hσ, ?_⟩
    rw [hτ, h.presetsBelow_eq]

end Related

/-! ### The two runs -/

/-- The response to a request after the requests of a run, when the owner id in
question is `o`. -/
def responseAfter (c : Context) (svc : Service) (ms : List Message) (o : GoString)
    (x : Inquiry) : Served :=
  (serve c svc (serveAll c svc KeyedStore.empty (ms.map (·.sent o))) x).1

/-- The requests of other clients in a run come with other owner ids. -/
def OthersDiffer (a b : GoString) (ms : List Message) : Prop :=
  ∀ m ∈ ms, m.byOwner = false → m.inquiry.request.formValue "ownerId" ≠ a ∧
    m.inquiry.request.formValue "ownerId" ≠ b

instance (a b : GoString) (ms : List Message) : Decidable (OthersDiffer a b ms) :=
  inferInstanceAs (Decidable (∀ m ∈ ms, _))

/-- **Other clients learn an owner id from `loadPreset` alone.** Of two runs that
differ in the owner id of one client, where the others use neither owner id,
another client's `storePreset`, `removePreset` and `getShareIds` are answered the
same, to the byte; and its `loadPreset` is answered the same error, or lists that
differ in nothing but that owner id in the presets of that client. -/
theorem other_responses (c : Context) (svc : Service) (a b : GoString) (hab : a ≠ b)
    (ms : List Message) (hms : OthersDiffer a b ms) (x : Inquiry) :
    (x.endpoint ≠ .load → responseAfter c svc ms a x = responseAfter c svc ms b x) ∧
    (x.endpoint = .load →
      (∃ l : List SharedPreset,
        responseAfter c svc ms a x = .ok (writeJson {} x.request (.presets (.of l))) ∧
        responseAfter c svc ms b x =
          .ok (writeJson {} x.request (.presets (.of (l.map (SharedPreset.rename a b)))))) ∨
      (∃ err, responseAfter c svc ms a x = failed {} err ∧
        responseAfter c svc ms b x = failed {} err)) := by
  -- the runs start from the same empty store
  have hrelated : Related c a b (serveAll c svc KeyedStore.empty (ms.map (·.sent a)))
      (serveAll c svc KeyedStore.empty (ms.map (·.sent b))) :=
    Related.empty.serveAll hab hms
  obtain ⟨endpoint, r⟩ := x
  refine ⟨fun hx => (hrelated.response_eq hx).symm, fun hx => ?_⟩
  obtain rfl : endpoint = .load := hx
  exact hrelated.load_response_eq r

namespace Sample

/-- A run in which Ann stores a preset, under the owner id in question, and Bob
asks to store one of the same name. -/
def annThenBob : List Message := [⟨true, ⟨.store, ann⟩⟩, ⟨false, ⟨.store, bob⟩⟩]

end Sample

/-- Bob gets the same list of share ids whether Ann's owner id is "ann" or "amy". -/
theorem other_responses_amy :
    responseAfter Sample.context .inKeyOrder Sample.annThenBob "ann" ⟨.getShareIds, Sample.bob⟩ =
      responseAfter Sample.context .inKeyOrder Sample.annThenBob "amy"
        ⟨.getShareIds, Sample.bob⟩ :=
  (other_responses Sample.context .inKeyOrder "ann" "amy" (by decide) Sample.annThenBob
    (by decide) ⟨.getShareIds, Sample.bob⟩).1 (by decide)

/-- No form value of a request is one of two values. -/
def Avoids (a b : GoString) (r : Request) : Prop :=
  ∀ key, r.formValue key ≠ a ∧ r.formValue key ≠ b

/-- A form value is listed in the form, or missing. -/
theorem avoids_of_form {r : Request} (ha : a ≠ "") (hb : b ≠ "")
    (h : ∀ f ∈ r.form, a ∉ f.2 ∧ b ∉ f.2) : Avoids a b r := by
  intro key
  unfold Request.formValue
  cases hlookup : r.form.lookup key with
  | none => exact ⟨ha.symm, hb.symm⟩
  | some vs =>
    cases vs with
    | nil => exact ⟨ha.symm, hb.symm⟩
    | cons v vs =>
      obtain ⟨l₁, l₂, hform, -⟩ := List.lookup_eq_some_iff.mp hlookup
      have hmem : (key, v :: vs) ∈ r.form := by
        rw [hform]
        exact List.mem_append_right l₁ List.mem_cons_self
      obtain ⟨hva, hvb⟩ := h _ hmem
      refine ⟨?_, ?_⟩
      · rintro rfl
        exact hva List.mem_cons_self
      · rintro rfl
        exact hvb List.mem_cons_self

/-- **`loadPreset` lists the owner id.** Bob, none of whose form values is Ann's
owner id, is answered another list when that owner id is another. -/
theorem owner_id_is_listed :
    ¬ ∀ (a b : GoString) (ms : List Message) (x : Inquiry), a ≠ b →
      (∀ m ∈ ms, m.byOwner = false → Avoids a b m.inquiry.request) → Avoids a b x.request →
      responseAfter Sample.context .inKeyOrder ms a x =
        responseAfter Sample.context .inKeyOrder ms b x := by
  intro hsecret
  have hbob : Avoids "ann" "amy" Sample.bob :=
    avoids_of_form (by decide) (by decide) (by decide)
  have hann : ∀ m ∈ [(⟨true, ⟨.store, Sample.ann⟩⟩ : Message)], m.byOwner = false →
      Avoids "ann" "amy" m.inquiry.request := by
    intro m hm hother
    obtain rfl := List.mem_singleton.mp hm
    exact absurd hother (by decide)
  have hsame := hsecret "ann" "amy" _ ⟨.load, Sample.bob⟩ (by decide) hann hbob
  exact absurd hsame (by decide)

end PluginsDatastore
