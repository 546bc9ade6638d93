import Mathlib.Data.List.Lex
import Mathlib.Data.List.Sort
import Mathlib.Order.Lattice.Nat
import PluginsDatastore.Appengine.Service

/-!
# A service that answers in key order

A `Service` that can be run: results come in the order of their keys and in one
batch, a new id is one more than the largest id in use, and a query below a key
that names no entity is answered by an error.
-/

namespace PluginsDatastore

/-- The bytes of a string, preceded by their number. -/
def GoString.code (s : GoString) : List ℕ := s.length :: s.map UInt8.toNat

/-- A key spelled as a list of numbers, by which keys are compared. -/
def Key.code : Key → List ℕ
  | nil => [0]
  | mk kind stringID intID parent appID nameSpace =>
    1 :: (kind.code ++ (stringID.code ++ (intID.toNat :: (-intID).toNat ::
      (parent.code ++ (appID.code ++ nameSpace.code)))))

theorem GoString.code_append_inj {s t : GoString} {xs ys : List ℕ}
    (h : s.code ++ xs = t.code ++ ys) : s = t ∧ xs = ys := by
  -- the lengths come first, and say where the bytes end
  unfold GoString.code at h
  rw [List.cons_append, List.cons_append, List.cons.injEq] at h
  obtain ⟨hmap, hrest⟩ := List.append_inj h.2 (by simpa using h.1)
  have hinj : Function.Injective UInt8.toNat := fun a b hab => UInt8.toNat_inj.mp hab
  exact ⟨List.map_injective_iff.mpr hinj hmap, hrest⟩

/-- No key's code is a proper prefix of another's. -/
theorem Key.code_append_inj {k k' : Key} {xs ys : List ℕ} (h : k.code ++ xs = k'.code ++ ys) :
    k = k' ∧ xs = ys := by
  induction k generalizing k' xs ys with
  | nil =>
    cases k' with
    | nil => exact ⟨rfl, by simpa [code] using h⟩
    | mk => simp [code] at h
  | mk kind stringID intID parent appID nameSpace ih =>
    cases k' with
    | nil => simp [code] at h
    | mk kind' stringID' intID' parent' appID' nameSpace' =>
      simp only [code, List.cons_append, List.append_assoc, List.cons.injEq, true_and] at h
      -- the fields are read off one after another
      obtain ⟨hkind, h⟩ := GoString.code_append_inj h
      obtain ⟨hstringID, h⟩ := GoString.code_append_inj h
      simp only [List.cons.injEq] at h
      obtain ⟨hpos, hneg, h⟩ := h
      have hintID : intID = intID' := by omega
      obtain ⟨hparent, h⟩ := ih h
      obtain ⟨happID, h⟩ := GoString.code_append_inj h
      obtain ⟨hnameSpace, h⟩ := GoString.code_append_inj h
      exact ⟨by rw [hkind, hstringID, hintID, hparent, happID, hnameSpace], h⟩

theorem Key.code_injective : Function.Injective Key.code := by
  intro k k' h
  exact (@Key.code_append_inj k k' [] [] (by rw [h])).1

/-- The order of keys. -/
def Key.before (k k' : Key) : Prop := k.code ≤ k'.code

instance : DecidableRel Key.before := fun k k' => inferInstanceAs (Decidable (k.code ≤ k'.code))

instance : Std.Total Key.before := ⟨fun k k' => le_total k.code k'.code⟩

instance : IsTrans Key Key.before := ⟨fun _ _ _ h h' => le_trans (α := List ℕ) h h'⟩

/-- A set of keys, in order. -/
def Key.inOrder (s : Finset Key) : List Key :=
  Quot.liftOn s.val (List.insertionSort Key.before) fun l l' h => by
    -- two sorted lists of the same keys are the same
    refine List.Perm.eq_of_pairwise ?_ (List.pairwise_insertionSort Key.before l)
      (List.pairwise_insertionSort Key.before l') ?_
    · intro k k' _ _ hle hge
      exact Key.code_injective (le_antisymm (α := List ℕ) hle hge)
    · exact (List.perm_insertionSort _ l).trans (h.trans (List.perm_insertionSort _ l').symm)

theorem Key.coe_inOrder (s : Finset Key) : (Key.inOrder s : Multiset Key) = s.val := by
  obtain ⟨v, hv⟩ := s
  induction v using Quot.inductionOn with
  | h l => exact Quot.sound (List.perm_insertionSort _ l)

theorem Key.pairwise_inOrder (s : Finset Key) :
    (Key.inOrder s).Pairwise fun k k' => k.code < k'.code := by
  have hsorted : (Key.inOrder s).Pairwise Key.before := by
    obtain ⟨v, hv⟩ := s
    induction v using Quot.inductionOn with
    | h l => exact List.pairwise_insertionSort Key.before l
  have hnodup : (Key.inOrder s).Nodup := by
    rw [← Multiset.coe_nodup, Key.coe_inOrder]
    exact s.nodup
  refine (List.Pairwise.and hsorted hnodup).imp ?_
  rintro k k' ⟨hle, hne⟩
  exact lt_of_le_of_ne (α := List ℕ) hle (Key.code_injective.ne hne)

/-- The integer id of a key. -/
def Key.intID : Key → ℤ
  | nil => 0
  | mk _ _ intID _ _ _ => intID

/-- One more than the largest integer id among some keys. -/
def Key.nextID (used : Finset Key) : ℤ := used.sup (fun k => k.intID.toNat) + 1

theorem Key.withID_nextID_notMem {k : Key} {used : Finset Key} (hk : k ≠ nil) :
    k.withID (nextID used) ∉ used := by
  intro hmem
  -- the id of a used key is at most the largest
  have hle := Finset.le_sup (f := fun k : Key => k.intID.toNat) hmem
  cases k with
  | nil => exact hk rfl
  | mk kind stringID intID parent appID nameSpace =>
    have hid : (mk kind stringID (nextID used) parent appID nameSpace).intID = nextID used := rfl
    simp only [withID, hid] at hle
    unfold nextID at hle
    omega

namespace Service

/-- The service that answers in key order. -/
def inKeyOrder : Service where
  order := fun _ s => Key.inOrder s
  order_coe := fun _ s => Key.coe_inOrder s
  page := .last
  page_results := fun _ => rfl
  page_final := fun _ => rfl
  newID := fun _ used => Key.nextID used
  newID_ne := by
    intro _ used
    unfold Key.nextID
    omega
  newID_fresh := fun _ _ hk => Key.withID_nextID_notMem hk
  rejects := fun q =>
    if q.ancestor.incomplete then some (.new "BAD_REQUEST: missing key id/name") else none
  rejects_complete := by
    intro q hq
    rw [hq]
    rfl
  rejects_ne_done := by
    intro q
    split <;> simp

end Service

end PluginsDatastore
