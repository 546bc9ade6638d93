import Mathlib.Data.Finmap
import Mathlib.Data.Finset.Image
import Mathlib.Algebra.Order.Group.Multiset
import Mathlib.Tactic.Abel

/-!
# A keyed store that remembers its keys

`KeyedStore K V` holds at most one value under each key and remembers every key
it has ever held a value under, deleted keys included. The second part is what
makes "a key that was never used" a statement about the state: a service that
hands out fresh keys has to avoid `used`, not only the keys present.

The operations are `get`, `put` and `eraseAll`. `entries` lists the stored pairs
as a multiset, and the lemmas on it say what each operation removes and adds, so
that the contents of two stores can be compared without their keys.
-/

namespace Calls

/-- A finite map from keys to values with the set of all keys it has ever held. -/
structure KeyedStore (K V : Type) [DecidableEq K] where
  ents : Finmap fun _ : K => V
  /-- The keys a value has ever been stored under. -/
  used : Finset K
  keys_subset : ents.keys ⊆ used

namespace KeyedStore

variable {K V : Type} [DecidableEq K]

/-- The value stored under `k`. -/
def get (σ : KeyedStore K V) (k : K) : Option V := σ.ents.lookup k

/-- The keys present. -/
def keys (σ : KeyedStore K V) : Finset K := σ.ents.keys

/-- The store that has never held a value. -/
def empty : KeyedStore K V := ⟨∅, ∅, by simp⟩

/-- Store `v` under `k`, in place of what was there. -/
def put (σ : KeyedStore K V) (k : K) (v : V) : KeyedStore K V where
  ents := σ.ents.insert k v
  used := insert k σ.used
  keys_subset := by
    intro j hj
    rw [Finmap.mem_keys, Finmap.mem_insert] at hj
    -- the key written, or one that was present
    rcases hj with rfl | hj
    · exact Finset.mem_insert_self _ _
    · exact Finset.mem_insert_of_mem (σ.keys_subset (Finmap.mem_keys.mpr hj))

/-- Delete the value under `k`. -/
def erase (σ : KeyedStore K V) (k : K) : KeyedStore K V where
  ents := σ.ents.erase k
  used := σ.used
  keys_subset := by
    rw [Finmap.keys_erase]
    exact (Finset.erase_subset _ _).trans σ.keys_subset

/-- Delete the values under all the keys of a list. -/
def eraseAll (σ : KeyedStore K V) (ks : List K) : KeyedStore K V := ks.foldl erase σ

/-- The keys whose value satisfies a test. -/
def keysWhere (σ : KeyedStore K V) (p : K → V → Bool) : Finset K :=
  σ.keys.filter fun k => (σ.get k).any (p k)

/-- The stored pairs. -/
def entries (σ : KeyedStore K V) : Multiset (K × V) :=
  σ.ents.entries.map fun s => (s.1, s.2)

variable {σ τ : KeyedStore K V} {j k : K} {v w : V} {ks : List K}

/-! ### Reading -/

/-- Stores are told apart by what they hold and by the keys they have held. -/
theorem ext_get (hget : ∀ k, σ.get k = τ.get k) (hused : σ.used = τ.used) : σ = τ := by
  obtain ⟨_, _, _⟩ := σ
  obtain ⟨_, _, _⟩ := τ
  obtain rfl := hused
  congr 1
  exact Finmap.ext_lookup hget

@[simp] theorem get_empty (k : K) : (empty : KeyedStore K V).get k = none :=
  Finmap.lookup_empty k

theorem mem_keys : k ∈ σ.keys ↔ ∃ v, σ.get k = some v :=
  Finmap.mem_keys.trans Finmap.mem_iff

theorem mem_used (h : σ.get k = some v) : k ∈ σ.used :=
  σ.keys_subset (mem_keys.mpr ⟨v, h⟩)

/-- Under a key that was never used there is nothing. -/
theorem get_eq_none (h : k ∉ σ.used) : σ.get k = none := by
  by_contra hne
  obtain ⟨v, hv⟩ := Option.ne_none_iff_exists'.mp hne
  exact h (mem_used hv)

theorem mem_keysWhere {p : K → V → Bool} :
    k ∈ σ.keysWhere p ↔ ∃ v, σ.get k = some v ∧ p k v = true := by
  rw [keysWhere, Finset.mem_filter, mem_keys, Option.any_eq_true]
  refine ⟨?_, ?_⟩
  · intro hex
    obtain ⟨-, h⟩ := hex
    exact h
  · intro hex
    obtain ⟨v, hv, hp⟩ := hex
    exact ⟨⟨v, hv⟩, v, hv, hp⟩

/-! ### Writing -/

@[simp] theorem get_put_self (σ : KeyedStore K V) (k : K) (v : V) : (σ.put k v).get k = some v :=
  Finmap.lookup_insert _

theorem get_put_of_ne (h : j ≠ k) : (σ.put k v).get j = σ.get j :=
  Finmap.lookup_insert_of_ne _ h

theorem get_put : (σ.put k v).get j = if j = k then some v else σ.get j := by
  split
  · next h => rw [h, get_put_self]
  · next h => exact get_put_of_ne h

theorem get_erase : (σ.erase k).get j = if j = k then none else σ.get j := by
  split
  · next h => rw [h]; exact Finmap.lookup_erase _ _
  · next h => exact Finmap.lookup_erase_ne h

theorem get_eraseAll : (σ.eraseAll ks).get j = if j ∈ ks then none else σ.get j := by
  -- the keys are deleted from the front of the list on
  induction ks generalizing σ with
  | nil => rfl
  | cons k ks ih =>
    rw [eraseAll, List.foldl_cons, ← eraseAll, ih, get_erase]
    by_cases hmem : j ∈ ks
    · rw [if_pos hmem, if_pos (List.mem_cons_of_mem k hmem)]
    · -- then only `k` itself may have been deleted
      simp [hmem]

/-- The last of two writes under one key counts. -/
theorem put_put : (σ.put k v).put k w = σ.put k w := by
  refine ext_get (fun j => ?_) (Finset.insert_idem k σ.used)
  simp only [get_put]
  split <;> rfl

theorem get_of_get_eraseAll (h : (σ.eraseAll ks).get j = some v) : σ.get j = some v ∧ j ∉ ks := by
  rw [get_eraseAll] at h
  split at h
  · exact absurd h (by simp)
  · next hj => exact ⟨h, hj⟩

@[simp] theorem eraseAll_nil : σ.eraseAll [] = σ := rfl

@[simp] theorem used_eraseAll : (σ.eraseAll ks).used = σ.used := by
  induction ks generalizing σ with
  | nil => rfl
  | cons k ks ih => exact ih (σ := σ.erase k)

theorem eraseAll_append {ks' : List K} :
    (σ.eraseAll ks).eraseAll ks' = σ.eraseAll (ks ++ ks') :=
  List.foldl_append.symm

/-- Deleting depends on which keys are listed, not on their order. -/
theorem eraseAll_congr {ks' : List K} (h : ∀ k, k ∈ ks ↔ k ∈ ks') :
    σ.eraseAll ks = σ.eraseAll ks' :=
  ext_get (fun k => by simp only [get_eraseAll, h k]) (by simp)

/-! ### The stored pairs -/

@[simp] theorem mem_entries : (k, v) ∈ σ.entries ↔ σ.get k = some v := by
  rw [entries, Multiset.mem_map]
  refine ⟨?_, ?_⟩
  · intro hex
    obtain ⟨⟨k', v'⟩, hmem, heq⟩ := hex
    obtain ⟨rfl, rfl⟩ := Prod.mk.inj heq
    exact Finmap.mem_lookup_iff.mpr hmem
  · intro h
    exact ⟨⟨k, v⟩, Finmap.mem_lookup_iff.mp h, rfl⟩

theorem nodup_entries (σ : KeyedStore K V) : σ.entries.Nodup := by
  refine Multiset.Nodup.map ?_ σ.ents.nodup_entries
  intro e e' h
  obtain ⟨k, v⟩ := e
  obtain ⟨k', v'⟩ := e'
  obtain ⟨rfl, rfl⟩ := Prod.mk.inj h
  rfl

/-- A write adds its pair to the pairs under the other keys. -/
theorem entries_put : (σ.put k v).entries = (k, v) ::ₘ σ.entries.filter (fun e => e.1 ≠ k) := by
  -- neither side has a pair twice, so the members decide
  refine (Multiset.Nodup.ext (nodup_entries _) ?_).mpr ?_
  · -- the pairs kept are under other keys
    refine Multiset.nodup_cons.mpr ⟨?_, (nodup_entries σ).filter _⟩
    rw [Multiset.mem_filter]
    exact fun h => h.2 rfl
  · intro e
    obtain ⟨j, w⟩ := e
    rw [mem_entries, Multiset.mem_cons, Multiset.mem_filter, mem_entries, get_put]
    by_cases hj : j = k
    · -- under the key written there is the value written
      subst hj
      simp [eq_comm]
    · simp [hj]

theorem entries_put_of_get_eq_none (h : σ.get k = none) :
    (σ.put k v).entries = (k, v) ::ₘ σ.entries := by
  -- the write replaces nothing, so the filter of `entries_put` keeps all pairs
  rw [entries_put, Multiset.filter_eq_self.mpr]
  intro e hj heq
  obtain ⟨j, w⟩ := e
  obtain rfl := heq
  -- no pair of `σ` is under `k`
  rw [mem_entries, h] at hj
  exact absurd hj (by simp)

/-- A deletion keeps the pairs under the keys that are not listed. -/
theorem entries_eraseAll : (σ.eraseAll ks).entries = σ.entries.filter (fun e => e.1 ∉ ks) := by
  refine (Multiset.Nodup.ext (nodup_entries _) ((nodup_entries σ).filter _)).mpr ?_
  intro e
  obtain ⟨j, w⟩ := e
  rw [mem_entries, Multiset.mem_filter, mem_entries, get_eraseAll]
  by_cases hj : j ∈ ks <;> simp [hj]

/-- Stores that agree on a set of keys have the same pairs under these keys. -/
theorem filter_entries_congr {p : K → Prop} [DecidablePred p]
    (h : ∀ k, p k → σ.get k = τ.get k) :
    σ.entries.filter (fun e => p e.1) = τ.entries.filter (fun e => p e.1) := by
  refine (Multiset.Nodup.ext ((nodup_entries σ).filter _) ((nodup_entries τ).filter _)).mpr ?_
  intro e
  obtain ⟨k, v⟩ := e
  simp only [Multiset.mem_filter, mem_entries]
  exact and_congr_left fun hk => by rw [h k hk]

/-- The keys whose value satisfies a test, from the stored pairs. -/
theorem val_keysWhere (p : K → V → Bool) :
    (σ.keysWhere p).val = (σ.entries.filter fun e => p e.1 e.2 = true).map Prod.fst := by
  -- a store binds a key once, so the projection to the keys repeats none
  have hinj : ∀ e ∈ σ.entries.filter (fun e => p e.1 e.2 = true),
      ∀ e' ∈ σ.entries.filter (fun e => p e.1 e.2 = true), e.1 = e'.1 → e = e' := by
    intro e hv e' hw heq
    obtain ⟨k, v⟩ := e
    obtain ⟨k', w⟩ := e'
    obtain rfl : k = k' := heq
    have hv' := mem_entries.mp (Multiset.mem_filter.mp hv).1
    have hw' := mem_entries.mp (Multiset.mem_filter.mp hw).1
    rw [Option.some.inj (hv'.symm.trans hw')]
  refine (Multiset.Nodup.ext (σ.keysWhere p).nodup
    (Multiset.Nodup.map_on hinj ((nodup_entries σ).filter _))).mpr fun k => ?_
  rw [Finset.mem_val, mem_keysWhere, Multiset.mem_map]
  refine ⟨?_, ?_⟩
  · intro h
    obtain ⟨v, hv, hp⟩ := h
    exact ⟨(k, v), Multiset.mem_filter.mpr ⟨mem_entries.mpr hv, hp⟩, rfl⟩
  · intro h
    obtain ⟨⟨k', v⟩, hmem, rfl⟩ := h
    rw [Multiset.mem_filter, mem_entries] at hmem
    exact ⟨v, hmem.1, hmem.2⟩

/-! ### A write changes two agreeing stores by the same amount

Read along a map `f` of the pairs, a store is a multiset; "the same amount" is
said without subtraction, by adding each store's reading before to the other's
reading after. -/

section Amount

variable {M : Type} (f : K × V → M)

/-- The pairs split by whether their key satisfies `p`. -/
theorem map_entries_split (σ : KeyedStore K V) (p : K → Prop) [DecidablePred p] :
    σ.entries.map f =
      (σ.entries.filter (fun e => p e.1)).map f + (σ.entries.filter (fun e => ¬ p e.1)).map f := by
  rw [← Multiset.map_add, Multiset.filter_add_not]

theorem amount_put (h : σ.get k = τ.get k) :
    (σ.put k v).entries.map f + τ.entries.map f = σ.entries.map f + (τ.put k v).entries.map f := by
  -- what the write replaces is the same in both stores
  have hk := filter_entries_congr (p := fun j => j = k) (σ := σ) (τ := τ)
    (fun j hj => by rw [hj, h])
  rw [entries_put, entries_put, map_entries_split f σ (fun j => j = k),
    map_entries_split f τ (fun j => j = k), hk]
  simp only [ne_eq, Multiset.map_cons]
  -- what is left is a rearrangement of the same five parts
  simp only [← Multiset.singleton_add]
  abel

theorem amount_create {j k : K} (hσ : σ.get j = none) (hτ : τ.get k = none)
    (hf : f (j, v) = f (k, v)) :
    (σ.put j v).entries.map f + τ.entries.map f = σ.entries.map f + (τ.put k v).entries.map f := by
  -- both writes add one pair, and the two pairs read the same
  rw [entries_put_of_get_eq_none hσ, entries_put_of_get_eq_none hτ, Multiset.map_cons,
    Multiset.map_cons, hf, Multiset.cons_add, Multiset.add_cons]

theorem amount_eraseAll (h : ∀ k ∈ ks, σ.get k = τ.get k) :
    (σ.eraseAll ks).entries.map f + τ.entries.map f =
      σ.entries.map f + (τ.eraseAll ks).entries.map f := by
  -- what is deleted is the same in both stores
  have hks := filter_entries_congr (p := fun j => j ∈ ks) h
  rw [entries_eraseAll, entries_eraseAll, map_entries_split f σ (fun j => j ∈ ks),
    map_entries_split f τ (fun j => j ∈ ks), hks, ← add_assoc]
  congr 1
  exact add_comm _ _

end Amount

end KeyedStore

end Calls
