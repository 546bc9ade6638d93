import PluginsDatastore.Appengine.InKeyOrder
import PluginsDatastore.Appengine.QueryStub

/-!
# The results of the model's service over the wire

The development server takes what a query finds as a parameter, results by sort keys.
They are the results of the model's service when they list its entities, in its order, as
these travel (`Service.Sorts`). An entity under a valid and complete key arrives as it was
sent, and a sound store has no other.

The service that answers in key order sorts by the codes of the keys.
-/

namespace PluginsDatastore

open Calls

/-- The entity of a result as it travels. -/
def RawEntity.of (appID : GoString) (e : EntityProto) : RawEntity where
  key := keyToProto appID e.1
  props := e.2

/-- The results by which the development server serves queries are those of the model's
service, by keys in whose order they are sorted. -/
structure Service.Sorts {κ : Type} [LinearOrder κ] (svc : Service) (appID : GoString)
    (results : Store → Query → List (κ × RawEntity)) : Prop where
  sorted : ∀ σ q, Sorted (results σ q)
  entities : ∀ σ q, (results σ q).map Prod.snd = (svc.results q σ).map (RawEntity.of appID)

/-- Every stored key is a valid and complete one, as the service keeps it. -/
def Store.Sound (σ : Store) : Prop :=
  ∀ k props, σ.get k = some props → k.valid = true ∧ k.incomplete = false

variable {svc : Service} {σ : Store} {q : Query} {appID : GoString}

/-- An entity under a valid and complete key arrives as it was sent. -/
theorem read_of {e : EntityProto} (hvalid : e.1.valid = true) (hcomplete : e.1.incomplete = false) :
    (RawEntity.of appID e).read = .ok e := by
  obtain ⟨ref, href, hkey⟩ := @protoToKey_keyToProto appID _ hvalid
  -- the key of a stored entity is neither nil nor incomplete
  have hread : RpcIterator.readKey (RawEntity.of appID e) = .ok e.1 := by
    simp only [RpcIterator.readKey, RawEntity.of, href, hkey]
    cases hk : e.1 with
    | nil =>
      rw [hk] at hvalid
      exact absurd hvalid Bool.false_ne_true
    | mk =>
      rw [hk] at hcomplete
      simp only [hcomplete, Bool.false_eq_true, if_false]
  rw [RawEntity.read, hread]
  rfl

/-- Every result of a query is of a stored entity. -/
theorem Store.Sound.results (h : σ.Sound) {e : EntityProto} (he : e ∈ svc.results q σ) :
    e.1.valid = true ∧ e.1.incomplete = false := by
  -- a distinct query drops some of what it finds
  have hfound : e ∈ svc.found q σ := by
    unfold Service.results at he
    split at he
    · exact List.pwFilter_subset _ he
    · exact he
  obtain ⟨k, props, hget, -, rfl⟩ := Service.mem_found.mp hfound
  exact h k props hget

theorem Store.Sound.map_read (h : σ.Sound) :
    ((svc.results q σ).map (RawEntity.of appID)).map RawEntity.read =
      (svc.results q σ).map .ok := by
  rw [List.map_map]
  refine List.map_congr_left fun e he => ?_
  obtain ⟨hvalid, hcomplete⟩ := h.results he
  exact read_of hvalid hcomplete

/-! ### The service that answers in key order -/

/-- The results of the service that answers in key order, by the codes of their keys. -/
def keyRecords (appID : GoString) (σ : Store) (q : Query) : List (List ℕ × RawEntity) :=
  (Service.inKeyOrder.results q σ).map fun e => (e.1.code, RawEntity.of appID e)

theorem inKeyOrder_sorts (appID : GoString) :
    Service.inKeyOrder.Sorts appID (keyRecords appID) where
  sorted := by
    intro σ q
    have hfound : (Service.inKeyOrder.found q σ).Pairwise fun e e' => e.1.code < e'.1.code :=
      List.pairwise_map.mpr (Key.pairwise_inOrder _)
    refine List.pairwise_map.mpr ?_
    unfold Service.results
    split
    · exact hfound.sublist (List.pwFilter_sublist _)
    · exact hfound
  entities := by
    intro σ q
    rw [keyRecords, List.map_map]
    rfl

/-- A key with the id that the service gives to the entity after the first `n`. -/
def entityKey (n : ℕ) : Key := .mk "SharedPreset" "" (n + 1) .nil "app" ""

/-- A store with `n` entities. -/
def stocked : ℕ → Store
  | 0 => KeyedStore.empty
  | n + 1 => (stocked n).put (entityKey n) []

variable {n m : ℕ}

theorem entityKey_injective : Function.Injective entityKey := by
  intro n m h
  have hid := (Key.mk.inj h).2.2.1
  omega

theorem get_stocked_of_le (h : n ≤ m) : (stocked n).get (entityKey m) = none := by
  induction n with
  | zero => rfl
  | succ n ih =>
    rw [stocked, KeyedStore.get_put_of_ne (entityKey_injective.ne (by omega))]
    exact ih (by omega)

theorem card_entries_stocked : Multiset.card (stocked n).entries = n := by
  induction n with
  | zero => rfl
  | succ n ih =>
    rw [stocked, KeyedStore.entries_put_of_get_eq_none (get_stocked_of_le le_rfl),
      Multiset.card_cons, ih]

theorem get_stocked {k : Key} {props : List Property} (h : (stocked n).get k = some props) :
    ∃ m, k = entityKey m ∧ props = [] := by
  induction n with
  | zero => exact absurd h (by rw [stocked, KeyedStore.get_empty]; simp)
  | succ n ih =>
    rw [stocked, KeyedStore.get_put] at h
    split at h
    · next hk => exact ⟨n, hk, (Option.some.inj h).symm⟩
    · exact ih h

theorem stocked_sound (n : ℕ) : (stocked n).Sound := by
  intro k props h
  obtain ⟨m, rfl, -⟩ := get_stocked h
  have hid : ((m : ℤ) + 1 = 0) = False := eq_false (by omega)
  refine ⟨?_, ?_⟩
  · simp [entityKey, Key.valid, Key.validChain, Key.validLink]
    decide
  · simp [entityKey, Key.incomplete, hid]

/-- A query for all entities finds as many as there are. -/
theorem length_results_stocked (svc : Service) (hq : q.distinct = false)
    (hall : ∀ k, q.isResult (entityKey k) [] = true) (n : ℕ) :
    (svc.results q (stocked n)).length = n := by
  have hself : (stocked n).entries.filter (fun e => q.isResult e.1 e.2 = true) =
      (stocked n).entries := by
    refine Multiset.filter_eq_self.mpr ?_
    rintro ⟨k, props⟩ hmem
    obtain ⟨m, rfl, rfl⟩ := get_stocked (KeyedStore.mem_entries.mp hmem)
    exact hall m
  calc (svc.results q (stocked n)).length
      = Multiset.card (svc.found q (stocked n) : Multiset EntityProto) := by
        rw [Service.results_of_not_distinct hq, Multiset.coe_card]
    _ = Multiset.card ((stocked n).entries.filter fun e => q.isResult e.1 e.2 = true) := by
        rw [Service.coe_found, Multiset.card_map]
    _ = n := by rw [hself, card_entries_stocked]

/-- The query for all presets. -/
def everyPreset : Query := newQuery "SharedPreset"

/-- Other clients store an entity and delete two, run a query, and go on with it. -/
def busy (n : ℕ) : List (List (StubCall (List ℕ))) :=
  [.put [(entityKey 30, [])], .delete [entityKey 21, entityKey 22],
    .runQuery ⟨"app", everyPreset, none, none, none, none, true⟩] ::
  [.next ⟨⟨2, "app"⟩, none, none, true⟩] :: List.replicate n []

/-- A development server with `n` entities, which nobody has asked anything yet. -/
def stockedStub (n : ℕ) : QueryStub RawEntity (List ℕ) where
  store := stocked n

/-- It attends to a client while the others are busy. -/
theorem stockedStub_attends {E : Error → Prop} (h : E deadlineExceeded ∨ m ≤ n + 2) (k : ℕ) :
    (stockedStub k).Attends E (busy n) m := by
  refine ⟨?_, h.imp_right fun h => ?_⟩
  · intro calls hcalls call hcall
    rcases List.mem_cons.mp hcalls with rfl | hcalls
    · simp only [List.mem_cons, List.not_mem_nil, or_false] at hcall
      rcases hcall with rfl | rfl | rfl <;> exact trivial
    · rcases List.mem_cons.mp hcalls with rfl | hcalls
      · obtain rfl := List.mem_singleton.mp hcall
        exact Nat.succ_ne_self 1
      · rw [List.eq_of_mem_replicate hcalls] at hcall
        exact absurd hcall List.not_mem_nil
  · rw [busy, List.length_cons, List.length_cons, List.length_replicate]
    exact h

/-- How it answers the calls of a query meanwhile. -/
def stockedServer (n : ℕ) :
    QueryProto (CompiledCursor (List ℕ)) → Answers RawEntity (CompiledCursor (List ℕ)) :=
  (stockedStub n).serve .inKeyOrder (keyRecords "app") (busy n)

end PluginsDatastore
