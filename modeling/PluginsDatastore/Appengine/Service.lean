import Mathlib.Data.Finset.Lattice.Fold
import PluginsDatastore.Appengine.Datastore
import PluginsDatastore.Calls.KeyedStore

/-!
# The datastore service

The service holds a store of entities and answers the calls of
`Appengine/Datastore.lean`. What its documentation promises is fixed here: reads
are consistent with the writes before them, a named key holds at most one
entity, a write under an incomplete key creates an entity under an id that was
never used, a deletion removes what is stored under the listed keys. What the
documentation leaves open is a parameter, the structure `Service`: the order of
results, their division into batches, the ids it hands out, and the answer to a
query below an ancestor key that names no entity.

`Service.exec` is the service with every call succeeding, except that such a
query may be rejected. `Exec` is the service that may fail: any call may answer
an error, a failed query after some of its results, a failed write with or
without having been applied, a failed deletion with any of its keys deleted.
-/

namespace PluginsDatastore

open Calls

/-- The entities of the datastore, by their keys. -/
abbrev Store : Type := KeyedStore Key (List Property)

/-- What is left to the service. -/
structure Service where
  /-- The order in which a query yields the entities under a set of keys. -/
  order : Query → Finset Key → List Key
  order_coe : ∀ q s, (order q s : Multiset Key) = s.val
  /-- The division of results into batches. -/
  page : List EntityProto → Replies EntityProto
  page_results : ∀ l, (page l).results = l
  page_final : ∀ l, (page l).final = .done
  /-- The id that completes a key, chosen knowing the keys used so far. -/
  newID : Key → Finset Key → ℤ
  newID_ne : ∀ k used, newID k used ≠ 0
  newID_fresh : ∀ k used, k ≠ Key.nil → k.withID (newID k used) ∉ used
  /-- Queries that are answered by an error. -/
  rejects : Query → Option Error
  rejects_complete : ∀ q, q.ancestor.incomplete = false → rejects q = none
  /-- The service's errors are not the `Done` of the client. -/
  rejects_ne_done : ∀ q, rejects q ≠ some .done

namespace Service

variable (svc : Service)

/-- What a query delivers of the stored entities it is about. -/
def found (q : Query) (σ : Store) : List EntityProto :=
  (svc.order q (σ.keysWhere q.isResult)).map fun k => q.deliver k ((σ.get k).getD [])

/-- The results of a query in a state of the store. A distinct query yields one
result for each list of delivered properties. -/
def results (q : Query) (σ : Store) : List EntityProto :=
  if q.distinct then (svc.found q σ).pwFilter (fun e e' => e.2 ≠ e'.2) else svc.found q σ

/-- The key under which a `Put` stores. -/
def putKey (key : Key) (σ : Store) : Key :=
  if key.incomplete then key.withID (svc.newID key σ.used) else key

/-- The service, answering every call. -/
def exec (σ : Store) : (c : Call) → c.Reply × Store
  | .count q =>
    match svc.rejects q with
    | some err => (.error err, σ)
    | none => (.ok (svc.results q σ).length, σ)
  | .runQuery q =>
    match svc.rejects q with
    | some err => (.fail err, σ)
    | none => (svc.page (svc.results q σ), σ)
  | .put key props => (.ok (svc.putKey key σ), σ.put (svc.putKey key σ) props)
  | .delete keys => (none, σ.eraseAll keys)

/-- **The service that may fail.** A call succeeds, or it answers an error; a
failed query may have yielded results before, and a failed write may have been
applied, to any part. -/
inductive Exec : Store → (c : Call) → c.Reply → Store → Prop
  | ok (σ : Store) (c : Call) : Exec σ c (svc.exec σ c).1 (svc.exec σ c).2
  | countFails (σ : Store) (q : Query) (err : Error) : Exec σ (.count q) (.error err) σ
  | queryFails (σ : Store) (q : Query) (res : Replies EntityProto) :
      res.results <+: svc.results q σ → res.final ≠ .done → Exec σ (.runQuery q) res σ
  | putLost (σ : Store) (key : Key) (props : List Property) (err : Error) :
      Exec σ (.put key props) (.error err) σ
  | putApplied (σ : Store) (key : Key) (props : List Property) (err : Error) :
      Exec σ (.put key props) (.error err) (svc.exec σ (.put key props)).2
  | deleteFails (σ : Store) (keys deleted : List Key) (err : Error) :
      deleted ⊆ keys → Exec σ (.delete keys) (some err) (σ.eraseAll deleted)

variable {svc}

/-! ### Results -/

/-- What is found, as a multiset of what the query delivers of the stored pairs. -/
theorem coe_found (q : Query) (σ : Store) :
    (svc.found q σ : Multiset EntityProto) =
      (σ.entries.filter fun e => q.isResult e.1 e.2 = true).map fun e => q.deliver e.1 e.2 := by
  unfold found
  rw [← Multiset.map_coe, svc.order_coe, KeyedStore.val_keysWhere, Multiset.map_map]
  -- looking a listed key up finds the entity it was listed for
  refine Multiset.map_congr rfl ?_
  intro e hmem
  obtain ⟨k, props⟩ := e
  have hget : σ.get k = some props := KeyedStore.mem_entries.mp (Multiset.mem_filter.mp hmem).1
  simp [hget]

theorem mem_found {q : Query} {σ : Store} {e : EntityProto} :
    e ∈ svc.found q σ ↔
      ∃ k props, σ.get k = some props ∧ q.isResult k props = true ∧ e = q.deliver k props := by
  rw [← Multiset.mem_coe, coe_found, Multiset.mem_map]
  refine ⟨?_, ?_⟩
  · intro h
    obtain ⟨⟨k, props⟩, hmem, rfl⟩ := h
    rw [Multiset.mem_filter, KeyedStore.mem_entries] at hmem
    exact ⟨k, props, hmem.1, hmem.2, rfl⟩
  · intro h
    obtain ⟨k, props, hget, hres, rfl⟩ := h
    exact ⟨(k, props), Multiset.mem_filter.mpr ⟨KeyedStore.mem_entries.mpr hget, hres⟩, rfl⟩

/-- The keys found are those of the entities the query is about. -/
theorem mem_map_fst_found {q : Query} {σ : Store} {k : Key} :
    k ∈ (svc.found q σ).map Prod.fst ↔
      ∃ props, σ.get k = some props ∧ q.isResult k props = true := by
  rw [List.mem_map]
  refine ⟨?_, ?_⟩
  · intro h
    obtain ⟨e, he, rfl⟩ := h
    obtain ⟨k, props, hget, hres, rfl⟩ := mem_found.mp he
    exact ⟨props, hget, hres⟩
  · intro h
    obtain ⟨props, hget, hres⟩ := h
    exact ⟨q.deliver k props, mem_found.mpr ⟨k, props, hget, hres, rfl⟩, rfl⟩

/-- Nothing is found exactly when the query is about none of the stored
entities. -/
theorem length_found_eq_zero {q : Query} {σ : Store} :
    (svc.found q σ).length = 0 ↔
      ∀ k props, σ.get k = some props → q.isResult k props = false := by
  rw [List.length_eq_zero_iff, List.eq_nil_iff_forall_not_mem]
  refine ⟨?_, ?_⟩
  · intro h k props hget
    by_contra hres
    rw [Bool.not_eq_false] at hres
    exact h _ (mem_found.mpr ⟨k, props, hget, hres, rfl⟩)
  · intro h e he
    obtain ⟨k, props, hget, hres, -⟩ := mem_found.mp he
    rw [h k props hget] at hres
    exact absurd hres (by simp)

/-- The keys of the entities a query is about, from what it yields of them. -/
theorem mem_keysWhere_isResult {q : Query} {σ : Store} {k : Key} :
    k ∈ σ.keysWhere q.isResult ↔ ((σ.get k).bind (q.yield k)).isSome = true := by
  rw [KeyedStore.mem_keysWhere]
  cases hget : σ.get k with
  | none => simp
  | some props =>
    rw [Option.bind_some, Query.yield]
    split <;> simp_all

/-- The same is found in stores of whose entities the query yields the same. -/
theorem found_congr {q : Query} {σ τ : Store}
    (h : ∀ k, (σ.get k).bind (q.yield k) = (τ.get k).bind (q.yield k)) :
    svc.found q σ = svc.found q τ := by
  -- the order is of the keys, so these have to be the same first
  have hkeys : σ.keysWhere q.isResult = τ.keysWhere q.isResult := by
    ext k
    rw [mem_keysWhere_isResult, mem_keysWhere_isResult, h]
  unfold found
  rw [← hkeys]
  refine List.map_congr_left fun k hk => ?_
  -- of a listed key the query yields the same in both stores
  have hmem : k ∈ σ.keysWhere q.isResult := by
    rw [← Finset.mem_val, ← svc.order_coe q]
    exact hk
  have hmem' : k ∈ τ.keysWhere q.isResult := hkeys ▸ hmem
  obtain ⟨props, hget, hres⟩ := KeyedStore.mem_keysWhere.mp hmem
  obtain ⟨props', hget', hres'⟩ := KeyedStore.mem_keysWhere.mp hmem'
  have hyield := h k
  rw [hget, hget', Option.bind_some, Option.bind_some, Query.yield, Query.yield, if_pos hres,
    if_pos hres', Option.some.injEq] at hyield
  rw [hget, hget']
  exact hyield

theorem results_of_not_distinct {q : Query} (hq : q.distinct = false) (σ : Store) :
    svc.results q σ = svc.found q σ := by
  unfold results
  rw [hq, if_neg Bool.false_ne_true]

/-- A distinct query delivers every list of properties that is found, once. -/
theorem map_snd_results {q : Query} (hq : q.distinct = true) (σ : Store) :
    (svc.results q σ).map Prod.snd = ((svc.found q σ).map Prod.snd).dedup := by
  unfold results
  rw [hq, if_pos rfl]
  have hmap := List.pwFilter_map (R := fun props props' : List Property => props ≠ props')
    (Prod.snd : EntityProto → List Property) (svc.found q σ)
  exact hmap.symm

/-! ### Replies -/

theorem exec_count {q : Query} (hq : q.ancestor.incomplete = false) (σ : Store) :
    svc.exec σ (.count q) = (.ok (svc.results q σ).length, σ) := by
  simp only [exec, svc.rejects_complete q hq]

theorem exec_runQuery {q : Query} (hq : q.ancestor.incomplete = false) (σ : Store) :
    svc.exec σ (.runQuery q) = (svc.page (svc.results q σ), σ) := by
  simp only [exec, svc.rejects_complete q hq]

/-- A count is rejected or answered. -/
theorem exec_count_cases (svc : Service) (σ : Store) (q : Query) :
    (∃ err, svc.rejects q = some err ∧ svc.exec σ (.count q) = (.error err, σ)) ∨
      svc.exec σ (.count q) = (.ok (svc.results q σ).length, σ) := by
  cases hq : svc.rejects q with
  | none => exact .inr (by simp only [exec, hq])
  | some err => exact .inl ⟨err, rfl, by simp only [exec, hq]⟩

/-- A query is rejected or answered, by an error that is not `Done` or by all its
results. -/
theorem exec_runQuery_cases (svc : Service) (σ : Store) (q : Query) :
    (∃ err, err ≠ .done ∧ svc.rejects q = some err ∧
      svc.exec σ (.runQuery q) = (.fail err, σ)) ∨
      svc.exec σ (.runQuery q) = (svc.page (svc.results q σ), σ) := by
  cases hq : svc.rejects q with
  | none => exact .inr (by simp only [exec, hq])
  | some err =>
    refine .inl ⟨err, ?_, rfl, by simp only [exec, hq]⟩
    rintro rfl
    exact svc.rejects_ne_done q hq

theorem exec_delete (σ : Store) (keys : List Key) :
    svc.exec σ (.delete keys) = (none, σ.eraseAll keys) := rfl

/-- A reading call leaves the store as it is. -/
theorem exec_count_state (σ : Store) (q : Query) : (svc.exec σ (.count q)).2 = σ := by
  simp only [exec]
  cases svc.rejects q <;> rfl

theorem exec_runQuery_state (σ : Store) (q : Query) : (svc.exec σ (.runQuery q)).2 = σ := by
  simp only [exec]
  cases svc.rejects q <;> rfl

/-- The reply to a reading call depends on the results only. -/
theorem exec_count_congr {q : Query} {σ τ : Store} (h : svc.results q σ = svc.results q τ) :
    (svc.exec σ (.count q)).1 = (svc.exec τ (.count q)).1 := by
  simp only [exec, h]
  cases svc.rejects q <;> rfl

theorem exec_runQuery_congr {q : Query} {σ τ : Store} (h : svc.results q σ = svc.results q τ) :
    (svc.exec σ (.runQuery q)).1 = (svc.exec τ (.runQuery q)).1 := by
  simp only [exec, h]
  cases svc.rejects q <;> rfl

/-! ### The key of a write -/

theorem putKey_of_complete {key : Key} (h : key.incomplete = false) (σ : Store) :
    svc.putKey key σ = key := by
  unfold putKey
  rw [h, if_neg Bool.false_ne_true]

theorem putKey_of_incomplete {key : Key} (h : key.incomplete = true) (σ : Store) :
    svc.putKey key σ = key.withID (svc.newID key σ.used) := by
  unfold putKey
  rw [h, if_pos rfl]

/-- A write under an incomplete key is under a key that was never used. -/
theorem putKey_fresh {key : Key} (h : key.incomplete = true) (σ : Store) :
    svc.putKey key σ ∉ σ.used := by
  rw [putKey_of_incomplete h]
  refine svc.newID_fresh key σ.used ?_
  rintro rfl
  exact absurd h (by decide)

end Service

end PluginsDatastore
