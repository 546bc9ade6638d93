import PluginsDatastore.DataStore.Flight
import PluginsDatastore.DataStore.Ownership

/-!
# Stores in flight

`storePreset` checks and writes in separate calls. Two requests of different
owners for one free pair of share id and name may both be granted before either
writes, and then the second write replaces the preset of the first owner
(`not_storesSafely_of_conflict`).

`storesSafely_iff` says that this is all that can go wrong: any number of stores
in flight are safe in every schedule exactly when those of different owners for
one pair come to a pair that is taken already. The invariant behind it is that a
pair has one rightful owner, the one that holds it from the start or the one that
all requests for it come from, and that grants and presets are that owner's.
-/

namespace PluginsDatastore

open Calls

variable {ι : Type} [DecidableEq ι]

/-- The requests to `storePreset`. -/
def storing (rs : ι → Request) : ι → Inquiry := fun i => ⟨.store, rs i⟩

/-- **No schedule harms an owner**: a write is never about to replace an entity of
another owner than the request's, and the presets of a share id and a name never
have two owners. -/
structure StoresSafely (c : Context) (svc : Service) (σ : Store) (rs : ι → Request) : Prop where
  replaced : ∀ (sched : List ι) (i : ι) (key : Key) (props : List Property) k,
    ((flight c σ (storing rs)).run svc.exec sched).prog i =
      .call (I := datastore) (.put key props) k →
    ∀ old, ((flight c σ (storing rs)).run svc.exec sched).state.get
        (svc.putKey key ((flight c σ (storing rs)).run svc.exec sched).state) = some old →
      indexedValue old "OwnerId" = some ((rs i).formValue "ownerId")
  agree : ∀ sched : List ι, OwnersAgree ((flight c σ (storing rs)).run svc.exec sched).state

variable {c : Context} {svc : Service} {σ σ₀ : Store} {r : Request} {rs : ι → Request}
  {s n o o' : GoString}

/-! ### Two owners for a free pair -/

/-- **Two stores of different owners for a free pair are unsafe**: both checks are
granted, and then both write. -/
theorem not_storesSafely_of_conflict {i j : ι} (hσ : WellKeyed c σ)
    (hs : (submitted (rs i)).shareId ≠ "")
    (hshare : (submitted (rs j)).shareId = (submitted (rs i)).shareId)
    (hname : (submitted (rs j)).presetName = (submitted (rs i)).presetName)
    (howner : (submitted (rs j)).ownerId ≠ (submitted (rs i)).ownerId)
    (hfree : ¬ Taken σ (submitted (rs i)).shareId (submitted (rs i)).presetName) :
    ¬ StoresSafely c svc σ rs := by
  intro hsafe
  have hij : i ≠ j := by
    rintro rfl
    exact howner rfl
  -- the two checks, and then the first write
  obtain ⟨hstate₂, hi₂, hj₂⟩ := @run_checks ι _ c (rs i) (flight c σ (storing rs)) svc i j (rs j)
    hσ hij rfl rfl hs hshare hname hfree
  have hstate₃ : ((flight c σ (storing rs)).run svc.exec [i, j, i]).state =
      written c svc (rs i) σ := fire_write svc hi₂ hstate₂
  have hj₃ : ((flight c σ (storing rs)).run svc.exec [i, j, i]).prog j = storeWrite c {} (rs j) :=
    (Pool.fire_prog_of_ne hij.symm).trans hj₂
  have hfirst : Has (written c svc (rs i) σ) (writtenKey c svc (rs i) σ) (submitted (rs i)) :=
    has_submitted
  by_cases hn : (submitted (rs i)).presetName = ""
  · -- without a name the second write adds a preset of another owner
    have hstate₄ : ((flight c σ (storing rs)).run svc.exec [i, j, i, j]).state =
        written c svc (rs j) (written c svc (rs i) σ) := fire_write svc hj₃ hstate₃
    have hagree := hsafe.agree [i, j, i, j]
    rw [hstate₄] at hagree
    have hold : Holds (written c svc (rs j) (written c svc (rs i) σ)) (submitted (rs i)).shareId
        (submitted (rs i)).presetName (submitted (rs i)).ownerId := by
      refine (has_written.mpr (.inr ⟨?_, hfirst⟩)).holds
      intro heq
      have hused := KeyedStore.mem_used hfirst
      rw [heq] at hused
      exact writtenKey_unnamed_notMem (hname.trans hn) hused
    have hold' : Holds (written c svc (rs j) (written c svc (rs i) σ)) (submitted (rs i)).shareId
        (submitted (rs i)).presetName (submitted (rs j)).ownerId :=
      ⟨_, submitted (rs j), has_submitted, hshare, hname, rfl⟩
    exact howner (hagree _ _ _ _ hold' hold)
  · -- with a name it is about to replace the first
    have hget : ((flight c σ (storing rs)).run svc.exec [i, j, i]).state.get (svc.putKey
        (presetKey c (submitted (rs j)).shareId (submitted (rs j)).presetName)
          ((flight c σ (storing rs)).run svc.exec [i, j, i]).state) =
            some (submitted (rs i)).save := by
      rw [hstate₃, hshare, hname, putKey_named hn, written, putKey_named hn,
        KeyedStore.get_put_self]
    have hsame := hsafe.replaced [i, j, i] j _ _ _ hj₃ _ hget
    rw [SharedPreset.indexedValue_ownerId, Option.some.injEq] at hsame
    exact howner hsame.symm

/-! ### The rightful owner of a pair -/

/-- The owner `o` holds the pair in `σ₀`, or the pair is free there and a request
of `o` is for it. -/
def Rightful (σ₀ : Store) (rs : ι → Request) (s n o : GoString) : Prop :=
  Holds σ₀ s n o ∨ (¬ Taken σ₀ s n ∧ ∃ i, (submitted (rs i)).shareId = s ∧
    (submitted (rs i)).presetName = n ∧ (submitted (rs i)).ownerId = o)

/-- Requests of different owners for one pair come to a pair that is taken. -/
def Settled (σ : Store) (rs : ι → Request) : Prop :=
  ∀ i j, (submitted (rs i)).shareId ≠ "" →
    (submitted (rs j)).shareId = (submitted (rs i)).shareId →
    (submitted (rs j)).presetName = (submitted (rs i)).presetName →
    (submitted (rs j)).ownerId ≠ (submitted (rs i)).ownerId →
      Taken σ (submitted (rs i)).shareId (submitted (rs i)).presetName

omit [DecidableEq ι] in
/-- A pair has one rightful owner. -/
theorem Rightful.unique (hagree : OwnersAgree σ₀) (hsettled : Settled σ₀ rs) (hs : s ≠ "")
    (h : Rightful σ₀ rs s n o) (h' : Rightful σ₀ rs s n o') : o = o' := by
  rcases h with h | ⟨hfree, i, rfl, rfl, rfl⟩
  · -- the pair is held from the start
    rcases h' with h' | ⟨hfree', -⟩
    · exact hagree _ _ _ _ h h'
    · exact absurd ⟨o, h⟩ hfree'
  · -- the pair is free at the start, and all requests for it come from one owner
    rcases h' with h' | ⟨-, j, hshare, hname, rfl⟩
    · exact absurd ⟨o', h'⟩ hfree
    · by_contra hne
      exact hfree (hsettled i j hs hshare hname fun heq => hne heq.symm)

/-- A write takes no pair from anybody. -/
theorem Taken.written (hσ : WellKeyed c σ) (hs : (submitted r).shareId ≠ "")
    (h : Taken σ s n) : Taken (written c svc r σ) s n := by
  obtain ⟨o, ho⟩ := h
  rcases ho.written hσ hs with hheld | ⟨rfl, rfl⟩
  · exact ⟨o, hheld⟩
  · exact ⟨_, holds_submitted⟩

omit [DecidableEq ι] in
/-- **Grants and presets are the rightful owner's.** -/
theorem kept_rightful (c : Context) (svc : Service) (σ₀ : Store) (rs : ι → Request) :
    Kept c svc (storing rs)
      (fun σ => (∀ k p, Has σ k p → Rightful σ₀ rs p.shareId p.presetName p.ownerId) ∧
        ∀ s n, Taken σ₀ s n → Taken σ s n)
      (fun i _ => Rightful σ₀ rs (submitted (rs i)).shareId (submitted (rs i)).presetName
        (submitted (rs i)).ownerId)
      (fun _ _ _ => True) where
  grant := by
    intro σ i _ hex _ _ hgranted
    obtain ⟨hright, htaken⟩ := hex
    rcases hgranted with hfree | ⟨k, p, hp, hshare, hname, howner⟩
    · -- a pair that is free now was free at the start
      exact .inr ⟨fun h => hfree (htaken _ _ h), i, rfl, rfl, rfl⟩
    · have hp' := hright k p hp
      rw [hshare, hname, howner] at hp'
      exact hp'
  collect := fun _ _ _ _ _ => trivial
  write := by
    intro σ i hσ hex _ hs hW
    obtain ⟨hright, htaken⟩ := hex
    refine ⟨⟨?_, fun s n h => (htaken s n h).written hσ hs⟩, fun _ => id, fun _ _ => id⟩
    intro k p hp
    rcases has_written.mp hp with ⟨-, rfl⟩ | ⟨-, hp⟩
    · exact hW
    · exact hright k p hp
  delete := fun _ _ _ _ _ hx _ => nomatch hx

/-- **When stores in flight are safe.** From every store that completed requests
lead to, any number of stores in flight, in any interleaving of their calls, write
over no preset of another owner and leave no pair with two owners, if and only if
those of different owners for one pair find the pair taken from the start. -/
theorem storesSafely_iff (c : Context) (svc : Service) (σ : Store) (hσ : Reachable c svc σ)
    (rs : ι → Request) :
    StoresSafely c svc σ rs ↔ Settled σ rs := by
  refine ⟨?_, ?_⟩
  · intro hsafe i j hs hshare hname howner
    by_contra hfree
    exact not_storesSafely_of_conflict hσ.wellKeyed hs hshare hname howner hfree hsafe
  · intro hsettled
    have hstart : (∀ k p, Has σ k p → Rightful σ rs p.shareId p.presetName p.ownerId) ∧
        ∀ s n, Taken σ s n → Taken σ s n := ⟨fun _ _ hp => .inl hp.holds, fun _ _ => id⟩
    have hrun := flight_run (kept_rightful c svc σ rs) hσ.wellKeyed hstart
    refine ⟨?_, ?_⟩
    · -- a granted write is the rightful owner's, and so is what it replaces
      intro sched i key props k hput old hold
      obtain ⟨hkeyed, ⟨hright, -⟩, hphases⟩ := hrun sched
      obtain ⟨hgranted, hs, rfl⟩ := (hphases i).of_put hput
      obtain ⟨p, rfl, hp, hfiled⟩ := hkeyed.exists_has hold
      -- what is replaced is a preset of the pair that is written
      obtain ⟨hshare, hname⟩ := hfiled.unique (filed_putKey svc _ hs)
      have hp' := hright _ p hp
      rw [hshare, hname] at hp'
      rw [SharedPreset.indexedValue_ownerId, hp'.unique hσ.ownersAgree hsettled hs hgranted]
      rfl
    · -- two presets of a pair are both the rightful owner's
      intro sched s n o o' h hex
      obtain ⟨k, p, hp, rfl, rfl, rfl⟩ := h
      obtain ⟨k', p', hp', hshare, hname, rfl⟩ := hex
      obtain ⟨hkeyed, ⟨hright, -⟩, -⟩ := hrun sched
      have hright' := hright k' p' hp'
      rw [hshare, hname] at hright'
      exact (hright k p hp).unique hσ.ownersAgree hsettled (hkeyed.filed hp).shareId_ne hright'

namespace Sample

/-- Ann and Bob, each with a request about a preset of the same name. -/
def annAndBob : Bool → Request
  | false => ann
  | true => bob

end Sample

/-- Ann's and Bob's stores are safe once Ann has the preset. -/
theorem storesSafely_ann_bob :
    StoresSafely Sample.context .inKeyOrder (Sample.after [⟨.store, Sample.ann⟩])
      Sample.annAndBob := by
  refine (storesSafely_iff Sample.context .inKeyOrder _ (Sample.reachable_after _)
    Sample.annAndBob).mpr fun i j _ _ _ _ => ?_
  cases i with
  | false => exact ⟨_, Sample.holds_ann⟩
  | true => exact ⟨_, Sample.holds_ann⟩

/-- **Ann's and Bob's first stores are not.** Either may replace the other's. -/
theorem storesSafely_ann_bob_empty :
    ¬ StoresSafely Sample.context .inKeyOrder KeyedStore.empty Sample.annAndBob :=
  @not_storesSafely_of_conflict Bool _ Sample.context .inKeyOrder KeyedStore.empty Sample.annAndBob
    false true WellKeyed.empty (by decide) rfl rfl (by decide) not_taken_empty

end PluginsDatastore
