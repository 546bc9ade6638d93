import PluginsDatastore.Go.Encoded
import PluginsDatastore.DataStore.Refinement

/-!
# Responses as clients read them

A response without a callback is a JSON text, and decoding it gives the value that the
handler wrote, its strings made UTF-8 (`unmarshal_encode`). So a client that decodes the
responses of `loadPreset` reads the abstract preset store (`load_decoded`).

A map has no order. `SharedPreset.decoded` lists the fields with the last one first,
which is how the decoder of the model leaves them.
-/

namespace PluginsDatastore

open Calls

variable {F : Type}

namespace SharedPreset

/-- The preset with its fields made UTF-8. -/
def valid (p : SharedPreset) : SharedPreset :=
  ⟨toValid p.ownerId, toValid p.shareId, toValid p.author, toValid p.presetName,
    toValid p.preset⟩

/-- A preset as it is decoded: a map from the names of its fields. -/
def decoded (p : SharedPreset) : Interface F :=
  .map [("Preset", .string p.preset), ("PresetName", .string p.presetName),
    ("Author", .string p.author), ("ShareId", .string p.shareId), ("OwnerId", .string p.ownerId)]

end SharedPreset

/-- What a value is decoded to. -/
def Value.decoded : Value → Interface F
  | .nil | .presets .nil | .strings .nil => .nil
  | .presets (.of l) => .slice (l.map fun p => p.valid.decoded)
  | .strings (.of l) => .slice (l.map fun s => .string (toValid s))

variable {parseFloat : GoString → Option F}

theorem encodes_preset (p : SharedPreset) : Encodes parseFloat p.encode p.valid.decoded := by
  have hnames : toValid "OwnerId" = "OwnerId" ∧ toValid "ShareId" = "ShareId" ∧
      toValid "Author" = "Author" ∧ toValid "PresetName" = "PresetName" ∧
      toValid "Preset" = "Preset" := by decide
  obtain ⟨howner, hshare, hauthor, hname, hpreset⟩ := hnames
  have h := encodes_struct parseFloat ("OwnerId", p.ownerId)
    [("ShareId", p.shareId), ("Author", p.author), ("PresetName", p.presetName),
      ("Preset", p.preset)]
  simp only [List.foldl_cons, List.foldl_nil, howner, hshare, hauthor, hname, hpreset] at h
  exact h

/-- **A response is decoded** to the value that was written, its strings made UTF-8. -/
theorem unmarshal_encode (parseFloat : GoString → Option F) (value : Value) :
    unmarshal parseFloat value.encode = .done value.decoded none := by
  have hnewline : ("\n" : GoString) ∈ Json.ws := by
    refine Json.mem_ws.mpr fun c hc => ?_
    obtain rfl := List.mem_singleton.mp hc
    decide
  refine Encodes.unmarshal_eq ?_ hnewline
  rcases value with _ | (_ | l) | (_ | l)
  · exact encodes_null
  · exact encodes_null
  · exact encodes_slice encodes_preset l
  · exact encodes_null
  · exact encodes_slice encodes_string l

/-! ### Reading the abstract store -/

variable {p : SharedPreset} {L : PresetStore} {s : GoString}

theorem SharedPreset.valid_eq_self (h : IsUtf8 p.ownerId ∧ IsUtf8 p.shareId ∧ IsUtf8 p.author ∧
    IsUtf8 p.presetName ∧ IsUtf8 p.preset) : p.valid = p := by
  simp only [← toValid_eq_iff] at h
  obtain ⟨howner, hshare, hauthor, hname, hpreset⟩ := h
  rw [valid, howner, hshare, hauthor, hname, hpreset]

/-- A request adds no preset but the one it submits. -/
theorem PresetStore.mem_apply {x : Inquiry} (h : p ∈ L.apply x s) :
    p ∈ L s ∨ p = submitted x.request := by
  obtain ⟨endpoint, r⟩ := x
  cases endpoint with
  | load => exact .inl h
  | getShareIds => exact .inl h
  | store =>
    change p ∈ L.store (submitted r) s at h
    unfold PresetStore.store at h
    by_cases hs : s = (submitted r).shareId
    · subst hs
      rw [apply_ite (fun L : PresetStore => L (submitted r).shareId), Function.update_self] at h
      split_ifs at h with hmay hname
      · exact (Multiset.mem_cons.mp h).symm
      · exact (Multiset.mem_cons.mp h).symm.imp_left Multiset.mem_of_mem_filter
      · exact .inl h
    · rw [apply_ite (fun L : PresetStore => L s), Function.update_of_ne hs, ite_self] at h
      exact .inl h
  | remove =>
    change p ∈ Function.update L _ _ s at h
    by_cases hs : s = r.formValue "shareId"
    · subst hs
      rw [Function.update_self] at h
      exact .inl (Multiset.mem_of_mem_filter h)
    · rw [Function.update_of_ne hs] at h
      exact .inl h

/-- Every preset of the specification has been submitted. -/
theorem PresetStore.submitted_of_mem (xs : List Inquiry)
    (h : p ∈ xs.foldl PresetStore.apply L s) : p ∈ L s ∨ ∃ x ∈ xs, p = submitted x.request := by
  induction xs generalizing L with
  | nil => exact .inl h
  | cons x xs ih =>
    rcases ih h with h | ⟨y, hy, heq⟩
    · rcases PresetStore.mem_apply h with h | h
      · exact .inl h
      · exact .inr ⟨x, List.mem_cons_self .., h⟩
    · exact .inr ⟨y, List.mem_cons_of_mem _ hy, heq⟩

/-- **A client reads the abstract preset store.** After any sequence of requests answered
in full, the response of `loadPreset` without a callback is decoded to the presets of the
specification, made UTF-8. They are the presets as submitted when these were UTF-8. -/
theorem load_decoded (parseFloat : GoString → Option F) (c : Context) (svc : Service)
    (xs : List Inquiry) (r : Request) (hs : r.formValue "shareId" ≠ "")
    (hcallback : r.formValue "callback" = "") :
    ∃ w, (serve c svc (serveAll c svc KeyedStore.empty xs) ⟨.load, r⟩).1 = .ok w ∧
      ∃ l : List SharedPreset,
        unmarshal parseFloat w.body = .done (.slice (l.map SharedPreset.decoded)) none ∧
        (l : Multiset SharedPreset) =
          (xs.foldl PresetStore.apply PresetStore.init (r.formValue "shareId")).map
            SharedPreset.valid ∧
        ((∀ x ∈ xs, ∀ key, IsUtf8 (x.request.formValue key)) → (l : Multiset SharedPreset) =
          xs.foldl PresetStore.apply PresetStore.init (r.formValue "shareId")) := by
  have hσ : WellKeyed c (serveAll c svc KeyedStore.empty xs) :=
    (Reachable.empty.serveAll xs).wellKeyed
  have hresp : (loadPreset c {} r).eval svc.exec (serveAll c svc KeyedStore.empty xs) = _ :=
    eval_loadPreset hσ hs
  have hl : (presetsBelow c svc (serveAll c svc KeyedStore.empty xs) (r.formValue "shareId") :
      Multiset SharedPreset) = _ :=
    (coe_presetsBelow hσ _).trans (congrFun (shared_serveAll WellKeyed.empty xs) _)
  generalize presetsBelow c svc _ (r.formValue "shareId") = l at hresp hl
  have hbody : (writeJson {} r (.presets (.of l))).body = Value.encode (.presets (.of l)) := by
    rw [body_writeJson, if_pos hcallback]
    rfl
  refine ⟨_, congrArg Prod.fst hresp, l.map SharedPreset.valid, ?_, ?_, fun hutf8 => ?_⟩
  · rw [hbody, unmarshal_encode, Value.decoded, List.map_map]
    rfl
  · rw [← Multiset.map_coe, hl]
    rfl
  · -- what was submitted in UTF-8 is left as it is
    have hvalid : ∀ p ∈ (l : Multiset SharedPreset), p.valid = p := by
      intro p hp
      rw [hl] at hp
      rcases PresetStore.submitted_of_mem xs hp with h | ⟨x, hx, rfl⟩
      · exact absurd h (Multiset.notMem_zero p)
      · exact SharedPreset.valid_eq_self ⟨hutf8 x hx _, hutf8 x hx _, hutf8 x hx _, hutf8 x hx _,
          hutf8 x hx _⟩
    rw [← Multiset.map_coe, Multiset.map_congr rfl hvalid, Multiset.map_id', hl]
    rfl

/-- A client that loads after Ann's store reads Ann's preset. -/
theorem load_decoded_ann :
    ∃ w, (serve Sample.context .inKeyOrder (Sample.after [⟨.store, Sample.ann⟩])
        ⟨.load, Sample.ann⟩).1 = .ok w ∧
      unmarshal (fun _ => (none : Option Unit)) w.body =
        .done (.slice [(submitted Sample.ann).decoded]) none := by
  obtain ⟨w, hresp, l, hdone, hl, -⟩ := load_decoded (fun _ => (none : Option Unit)) Sample.context
    .inKeyOrder [⟨.store, Sample.ann⟩] Sample.ann (by decide) (by decide)
  have hspec : [(⟨.store, Sample.ann⟩ : Inquiry)].foldl PresetStore.apply PresetStore.init
      (Sample.ann.formValue "shareId") = {submitted Sample.ann} := by decide
  have hvalid : (submitted Sample.ann).valid = submitted Sample.ann := by decide
  rw [hspec, Multiset.map_singleton, hvalid, Multiset.coe_eq_singleton] at hl
  subst hl
  exact ⟨w, hresp, hdone⟩

end PluginsDatastore
