import PluginsDatastore.Appengine.InKeyOrder
import PluginsDatastore.Calls.Trace
import PluginsDatastore.DataStore.Outcomes

/-!
# Sequential runs

`Serves c svc σ x σ'` says that the request of the exchange `x`, handled to its
end on the store `σ` with any of its calls failing, may get the response of `x`
and leave the store `σ'`. A sequential run is a `Trace` of such steps and
`Reachable` are the stores that runs from the empty one lead to.

`Serves.effect` sums the four handlers up: a request leaves the store as it is,
writes the preset it submits when the check may grant it, or deletes presets
that match it. Everything about reachable stores follows by cases on `Effect`.

`serve` is the same handling with every call answered, as a function.
-/

namespace PluginsDatastore

open Calls

/-- A request together with its response. -/
structure Exchange extends Inquiry where
  response : Served
  deriving DecidableEq

/-- The handling of a request, on a service that may fail. -/
def Serves (c : Context) (svc : Service) (σ : Store) (x : Exchange) (σ' : Store) : Prop :=
  (x.program c).Runs svc.Exec σ x.response σ'

/-- The stores that requests handled one after another lead to. -/
def Reachable (c : Context) (svc : Service) (σ : Store) : Prop :=
  ∃ xs, Trace (Serves c svc) KeyedStore.empty xs σ

/-- The handling of a request, on a service that answers every call. -/
def serve (c : Context) (svc : Service) (σ : Store) (x : Inquiry) : Served × Store :=
  (x.program c).eval svc.exec σ

/-- The store after a sequence of requests, on a service that answers every call. -/
def serveAll (c : Context) (svc : Service) (σ : Store) (xs : List Inquiry) : Store :=
  xs.foldl (fun τ x => (serve c svc τ x).2) σ

variable {c : Context} {svc : Service} {σ σ' : Store} {x : Exchange} {k : Key}
  {p : SharedPreset} {s n o : GoString}

/-- **What a request does to the store.** -/
inductive Effect (c : Context) (svc : Service) (x : Inquiry) (σ : Store) : Store → Prop
  | none : Effect c svc x σ σ
  | write (hx : x.endpoint = .store) (h : Granted σ x.request)
      (hs : (submitted x.request).shareId ≠ "") : Effect c svc x σ (written c svc x.request σ)
  | delete (hx : x.endpoint = .remove) (keys : List Key)
      (h : ∀ k ∈ keys, ∃ p, Has σ k p ∧ Matches (x.request.formValue "shareId")
        (x.request.formValue "ownerId") (x.request.formValue "presetName") p) :
      Effect c svc x σ (σ.eraseAll keys)

/-- The four handlers, summed up. -/
theorem Serves.effect (hσ : WellKeyed c σ) (h : Serves c svc σ x σ') :
    Effect c svc x.toInquiry σ σ' := by
  obtain ⟨⟨endpoint, request⟩, response⟩ := x
  cases endpoint with
  | load =>
    obtain ⟨rfl, -⟩ := loadPreset_inv h
    exact .none
  | store =>
    have hout : StoreOutcome c svc {} request σ response σ' := storePreset_outcome hσ h
    cases hout with
    | refused => exact .none
    | granted hgranted hwrite =>
      -- an error does not tell whether the write was applied
      cases hwrite with
      | invalid => exact .none
      | lost => exact .none
      | applied hs => exact .write rfl hgranted hs
      | stored hs => exact .write rfl hgranted hs
  | remove =>
    have hout : RemoveOutcome {} request σ response σ' := removePreset_outcome hσ h
    cases hout with
    | failed err deleted hdeleted => exact .delete rfl deleted hdeleted
    | removed keys hkeys => exact .delete rfl keys (fun k hk => (hkeys k).mp hk)
  | getShareIds =>
    obtain ⟨rfl, -⟩ := getShareIds_inv (fun _ _ _ _ h => h) h
    exact .none

/-- Evaluation is one of the ways a request may be handled. -/
theorem serves_serve (x : Inquiry) :
    Serves c svc σ ⟨x, (serve c svc σ x).1⟩ (serve c svc σ x).2 :=
  Prog.runs_of_eval (fun σ call => .ok σ call) (x.program c) σ

/-! ### Reachable stores are well-keyed -/

theorem WellKeyed.effect {y : Inquiry} (hσ : WellKeyed c σ) (h : Effect c svc y σ σ') :
    WellKeyed c σ' := by
  cases h with
  | none => exact hσ
  | write _ _ hs => exact hσ.written hs
  | delete _ keys _ => exact hσ.eraseAll keys

theorem WellKeyed.serves (hσ : WellKeyed c σ) (h : Serves c svc σ x σ') : WellKeyed c σ' :=
  hσ.effect (h.effect hσ)

theorem WellKeyed.trace {xs : List Exchange} (hσ : WellKeyed c σ)
    (h : Trace (Serves c svc) σ xs σ') : WellKeyed c σ' :=
  h.preserves (fun _ _ _ hτ hstep => hτ.serves hstep) hσ

/-- **Every reachable store is well-keyed.** -/
theorem Reachable.wellKeyed (h : Reachable c svc σ) : WellKeyed c σ := by
  obtain ⟨xs, hxs⟩ := h
  exact WellKeyed.empty.trace hxs

theorem Reachable.empty : Reachable c svc KeyedStore.empty := ⟨[], .nil _⟩

theorem Reachable.trace {xs : List Exchange} (h : Reachable c svc σ)
    (hxs : Trace (Serves c svc) σ xs σ') : Reachable c svc σ' := by
  obtain ⟨ys, hys⟩ := h
  exact ⟨ys ++ xs, hys.append hxs⟩

theorem Reachable.serves (h : Reachable c svc σ) (hx : Serves c svc σ x σ') :
    Reachable c svc σ' :=
  h.trace (.cons hx (.nil σ'))

theorem Reachable.serve (h : Reachable c svc σ) (x : Inquiry) :
    Reachable c svc (serve c svc σ x).2 :=
  h.serves (serves_serve x)

theorem Reachable.serveAll (h : Reachable c svc σ) (xs : List Inquiry) :
    Reachable c svc (serveAll c svc σ xs) := by
  induction xs generalizing σ with
  | nil => exact h
  | cons x xs ih => exact ih (h.serve x)

/-! ### Requests to run things on -/

namespace Sample

/-- An application with the default namespace. -/
def context : Context where
  fullyQualifiedAppID := "s~presets"
  nameSpace := ""
  appID_ne := by decide

/-- A request with an owner id, a share id and a preset name. -/
def request (ownerId shareId presetName : GoString) : Request where
  form := [("ownerId", [ownerId]), ("shareId", [shareId]), ("presetName", [presetName]),
    ("author", ["Ann"]), ("preset", ["a=1"])]

/-- Ann's request about the preset "wide" of the team. -/
def ann : Request := request "ann" "team" "wide"

/-- Bob's request about the preset of the same name. -/
def bob : Request := request "bob" "team" "wide"

/-- Bob's request about the preset "tall" of the team. -/
def bobTall : Request := request "bob" "team" "tall"

/-- A request and Bob's store, in flight together. -/
def withBob (x : Inquiry) : Bool → Inquiry
  | true => x
  | false => ⟨.store, bobTall⟩

/-- Ann's request without a preset name. -/
def annUnnamed : Request := request "ann" "team" ""

/-- The store after some requests, each answered in full in key order. -/
def after (xs : List Inquiry) : Store := serveAll context .inKeyOrder KeyedStore.empty xs

theorem reachable_after (xs : List Inquiry) : Reachable context .inKeyOrder (after xs) :=
  Reachable.empty.serveAll xs

theorem holds_ann : Holds (after [⟨.store, ann⟩]) "team" "wide" "ann" := by
  refine ⟨presetKey context "team" "wide", submitted ann, ?_, rfl, rfl, rfl⟩
  unfold Has
  decide

end Sample

end PluginsDatastore
