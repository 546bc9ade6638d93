import PluginsDatastore.DataStore.Flight
import PluginsDatastore.DataStore.Runs

/-!
# Removals in flight

`removePreset` collects keys by one call and deletes them by a later one, which
looks at nothing but the keys. The key of a preset with a name can be freed and
written again in between, by another owner.

`removesOwn_iff` says exactly when this can happen. A removal by `o` covers a
pair of share id and name, somebody else has a store for the pair in flight, and
one of three things lets the pair change hands (`Hazard`): `o` holds it and has a
second removal in flight; or it is free and `o` has a store for it in flight; or
another owner holds it, and that owner's removal and a store of `o` are in
flight. For the converse, `kept_tracked` follows the keys that removals have
found, and `intact_run` shows that a pair stays with its holder until a removal
by the holder has ended.
-/

namespace PluginsDatastore

open Calls

/-- A request to store a preset of the pair for the owner `o`. -/
structure StoreFor (x : Inquiry) (s n o : GoString) : Prop where
  endpoint : x.endpoint = .store
  shareId : x.request.formValue "shareId" = s
  presetName : x.request.formValue "presetName" = n
  ownerId : x.request.formValue "ownerId" = o

/-- A request to remove the presets of the owner `o` that covers the pair. -/
structure RemovalFor (x : Inquiry) (s n o : GoString) : Prop where
  endpoint : x.endpoint = .remove
  shareId : x.request.formValue "shareId" = s
  ownerId : x.request.formValue "ownerId" = o
  presetName : x.request.formValue "presetName" ≠ "" → x.request.formValue "presetName" = n

theorem StoreFor.program {x : Inquiry} {s n o : GoString} (h : StoreFor x s n o) (c : Context) :
    x.program c = storePreset c {} x.request := by
  rw [Inquiry.program, h.endpoint]
  rfl

theorem StoreFor.submitted_shareId {x : Inquiry} {s n o : GoString} (h : StoreFor x s n o) :
    (submitted x.request).shareId = s :=
  h.shareId

theorem StoreFor.submitted_presetName {x : Inquiry} {s n o : GoString} (h : StoreFor x s n o) :
    (submitted x.request).presetName = n :=
  h.presetName

theorem StoreFor.submitted_ownerId {x : Inquiry} {s n o : GoString} (h : StoreFor x s n o) :
    (submitted x.request).ownerId = o :=
  h.ownerId

theorem RemovalFor.program {x : Inquiry} {s n o : GoString} (h : RemovalFor x s n o)
    (c : Context) : x.program c = removePreset c {} x.request := by
  rw [Inquiry.program, h.endpoint]
  rfl

variable {ι : Type} {xs : ι → Inquiry} {i j : ι} {s n o o' : GoString}

/-- A store is not a removal. -/
theorem StoreFor.ne_of_removal (hj : StoreFor (xs j) s n o') (hi : RemovalFor (xs i) s n o) :
    j ≠ i := by
  rintro rfl
  exact absurd (hi.endpoint.symm.trans hj.endpoint) (by decide)

/-- **The requests that can make a removal hit another owner's preset.** -/
def Hazard (σ : Store) (xs : ι → Inquiry) : Prop :=
  ∃ (i j : ι) (s n o o' : GoString), s ≠ "" ∧ n ≠ "" ∧ o' ≠ o ∧
    RemovalFor (xs i) s n o ∧ StoreFor (xs j) s n o' ∧
    ((Holds σ s n o ∧ ∃ i', i' ≠ i ∧ RemovalFor (xs i') s n o) ∨
      (¬ Taken σ s n ∧ ∃ j', StoreFor (xs j') s n o) ∨
      ∃ o₁, o₁ ≠ o ∧ Holds σ s n o₁ ∧ (∃ i', RemovalFor (xs i') s n o₁) ∧
        ∃ j', StoreFor (xs j') s n o)

variable [DecidableEq ι]

/-- **No removal deletes what is not its caller's**: what a deletion is about to
delete matches the form values of its request. -/
def RemovesOwn (c : Context) (svc : Service) (σ : Store) (xs : ι → Inquiry) : Prop :=
  ∀ (sched : List ι) (i : ι) (keys : List Key) k,
    ((flight c σ xs).run svc.exec sched).prog i = .call (I := datastore) (.delete keys) k →
    ∀ key ∈ keys, ∀ old, ((flight c σ xs).run svc.exec sched).state.get key = some old →
      indexedValue old "OwnerId" = some ((xs i).request.formValue "ownerId") ∧
      indexedValue old "ShareId" = some ((xs i).request.formValue "shareId") ∧
      ((xs i).request.formValue "presetName" ≠ "" →
        indexedValue old "PresetName" = some ((xs i).request.formValue "presetName"))

variable {c : Context} {svc : Service} {σ σ₀ : Store} {P : Pool datastore ι Store Served}
  {r : Request} {k : Key} {p : SharedPreset}

/-! ### Pairs and their keys -/

/-- A removal that covers a pair of its owner finds the key of the pair. -/
theorem presetKey_mem_foundKeys {x : Inquiry} (hσ : WellKeyed c σ) (hn : n ≠ "")
    (hx : RemovalFor x s n o) (h : Holds σ s n o) :
    presetKey c s n ∈ foundKeys c svc x.request σ := by
  obtain ⟨k, p, hp, rfl, rfl, rfl⟩ := h
  rw [← (hσ.filed hp).eq_presetKey hn]
  exact (mem_foundKeys hσ).mpr
    ⟨p, hp, hx.shareId.symm, hx.ownerId.symm, fun hne => (hx.presetName hne).symm⟩

/-- A pair with a name is free once its key is deleted. -/
theorem not_taken_eraseAll {keys : List Key} (hσ : WellKeyed c σ) (hn : n ≠ "")
    (hkey : presetKey c s n ∈ keys) : ¬ Taken (σ.eraseAll keys) s n := by
  intro h
  obtain ⟨o, k, p, hp, rfl, rfl, -⟩ := h
  obtain ⟨hp, hk⟩ := has_eraseAll.mp hp
  -- a preset of the pair is at its key
  rw [(hσ.filed hp).eq_presetKey hn] at hk
  exact hk hkey

/-! ### How a removal hits another owner's preset -/

/-- A removal that has found the key of a pair hits the preset of another owner,
when a store for the pair by that owner has been granted. -/
theorem not_removesOwn_of_strike (sched : List ι) (keys : List Key) (hne : o' ≠ o) (hn : n ≠ "")
    (hi : RemovalFor (xs i) s n o) (hj : StoreFor (xs j) s n o')
    (hprog : ((flight c σ xs).run svc.exec sched).prog i = removeDelete {} (xs i).request keys)
    (hprog' : ((flight c σ xs).run svc.exec sched).prog j = storeWrite c {} (xs j).request)
    (hvalid : ∀ k ∈ keys, k.valid = true) (hkey : presetKey c s n ∈ keys) :
    ¬ RemovesOwn c svc σ xs := by
  intro hown
  have hij : i ≠ j := (hj.ne_of_removal hi).symm
  -- the store writes, and then the removal is about to delete what it wrote
  have hstate : ((flight c σ xs).run svc.exec (sched ++ [j])).state =
      written c svc (xs j).request ((flight c σ xs).run svc.exec sched).state := by
    rw [Pool.run_append]
    exact fire_write svc hprog' rfl
  have hdelete : ((flight c σ xs).run svc.exec (sched ++ [j])).prog i =
      removeDelete {} (xs i).request keys := by
    rw [Pool.run_append]
    exact (Pool.fire_prog_of_ne hij).trans hprog
  rw [removeDelete_of_valid (List.ne_nil_of_mem hkey) hvalid] at hdelete
  have hget : ((flight c σ xs).run svc.exec (sched ++ [j])).state.get (presetKey c s n) =
      some (submitted (xs j).request).save := by
    rw [hstate, written, hj.submitted_shareId, hj.submitted_presetName, putKey_named hn,
      KeyedStore.get_put_self]
  have hsame := (hown (sched ++ [j]) i keys _ hdelete _ hkey _ hget).1
  rw [SharedPreset.indexedValue_ownerId, Option.some.injEq, hj.submitted_ownerId,
    hi.ownerId] at hsame
  exact hne hsame

/-- A removal that covers a pair of its owner, run to its end, frees the pair. -/
theorem run_removal (svc : Service) (hP : WellKeyed c P.state) (hs : s ≠ "") (hn : n ≠ "")
    (hi : RemovalFor (xs i) s n o) (hprog : P.prog i = removePreset c {} (xs i).request)
    (h : Holds P.state s n o) :
    WellKeyed c (P.run svc.exec [i, i]).state ∧ ¬ Taken (P.run svc.exec [i, i]).state s n := by
  have hkey : presetKey c s n ∈ foundKeys c svc (xs i).request P.state :=
    presetKey_mem_foundKeys hP hn hi h
  have hs' : (xs i).request.formValue "shareId" ≠ "" := by
    rw [hi.shareId]
    exact hs
  obtain ⟨hstate, hdelete⟩ := fire_remove svc hprog hs'
  have hstate' : (P.run svc.exec [i, i]).state =
      P.state.eraseAll (foundKeys c svc (xs i).request P.state) :=
    fire_delete svc hdelete hstate (List.ne_nil_of_mem hkey) hP.valid_found
  rw [hstate']
  exact ⟨hP.eraseAll _, not_taken_eraseAll hP hn hkey⟩

/-- **A pair that is free and gets two owners' stores**: both are granted, the
removal's owner writes, the removal finds that preset, and the other owner
replaces it. -/
theorem not_removesOwn_of_free (sched : List ι) {j' : ι} (hσ : WellKeyed c σ) (hs : s ≠ "")
    (hn : n ≠ "") (hne : o' ≠ o) (hi : RemovalFor (xs i) s n o) (hj : StoreFor (xs j) s n o')
    (hj' : StoreFor (xs j') s n o) (hsched : i ∉ sched ∧ j ∉ sched ∧ j' ∉ sched)
    (hfree : ¬ Taken ((flight c σ xs).run svc.exec sched).state s n) :
    ¬ RemovesOwn c svc σ xs := by
  have hji : j ≠ i := hj.ne_of_removal hi
  have hji' : j' ≠ i := hj'.ne_of_removal hi
  have hjj' : j' ≠ j := by
    rintro rfl
    exact hne (hj.ownerId.symm.trans hj'.ownerId)
  -- both checks
  obtain ⟨hstate₁, hwrite₁, hwrite₁'⟩ := run_checks svc (flight_wellKeyed svc hσ xs sched) hjj'
    ((flight_prog_of_notMem hsched.2.2).trans (hj'.program c))
    ((flight_prog_of_notMem hsched.2.1).trans (hj.program c))
    (by rw [hj'.submitted_shareId]; exact hs)
    (hj.shareId.trans hj'.shareId.symm) (hj.presetName.trans hj'.presetName.symm)
    (by rw [hj'.submitted_shareId, hj'.submitted_presetName]; exact hfree)
  rw [← Pool.run_append] at hstate₁ hwrite₁ hwrite₁'
  -- the write of the removal's owner
  have hstate₂ : ((flight c σ xs).run svc.exec (sched ++ [j', j] ++ [j'])).state =
      written c svc (xs j').request ((flight c σ xs).run svc.exec sched).state := by
    rw [Pool.run_append]
    exact fire_write svc hwrite₁ hstate₁
  have hholds : Holds ((flight c σ xs).run svc.exec (sched ++ [j', j] ++ [j'])).state s n o := by
    rw [hstate₂]
    exact ⟨_, submitted (xs j').request, has_submitted, hj'.shareId, hj'.presetName, hj'.ownerId⟩
  -- the query of the removal
  have hkeyed := flight_wellKeyed svc hσ xs (sched ++ [j', j] ++ [j'])
  have hstart : ((flight c σ xs).run svc.exec (sched ++ [j', j] ++ [j'])).prog i =
      removePreset c {} (xs i).request := by
    rw [flight_prog_of_notMem, hi.program c]
    simp [hsched.1, hji.symm, hji'.symm]
  obtain ⟨-, hfound⟩ := fire_remove svc hstart (by rw [hi.shareId]; exact hs)
  refine not_removesOwn_of_strike (sched ++ [j', j] ++ [j'] ++ [i])
    (foundKeys c svc (xs i).request ((flight c σ xs).run svc.exec (sched ++ [j', j] ++ [j'])).state)
    hne hn hi hj ?_ ?_ hkeyed.valid_found (presetKey_mem_foundKeys hkeyed hn hi hholds)
  · rw [Pool.run_append]
    exact hfound
  · have hkept : ((flight c σ xs).run svc.exec (sched ++ [j', j])).prog j =
        ((flight c σ xs).run svc.exec (sched ++ [j', j] ++ [j'] ++ [i])).prog j := by
      rw [List.append_assoc _ [j'] [i], Pool.run_append (sched ++ [j', j])]
      exact (Pool.run_prog_of_notMem (by simp [hji, hjj'.symm])).symm
    rw [← hkept]
    exact hwrite₁'

/-- **A pair that its owner removes twice**: both removals find it, one deletes it,
and another owner's store takes its place. -/
theorem not_removesOwn_of_twice {i' : ι} (hσ : WellKeyed c σ) (hs : s ≠ "") (hn : n ≠ "")
    (hne : o' ≠ o) (hi : RemovalFor (xs i) s n o) (hj : StoreFor (xs j) s n o') (hii : i' ≠ i)
    (hi' : RemovalFor (xs i') s n o) (hholds : Holds σ s n o) : ¬ RemovesOwn c svc σ xs := by
  have hji : j ≠ i := hj.ne_of_removal hi
  have hji' : j ≠ i' := hj.ne_of_removal hi'
  -- the query of the first removal
  obtain ⟨hstate₁, hfound⟩ := @fire_remove ι _ c (xs i).request (flight c σ xs) i svc
    (hi.program c) (by rw [hi.shareId]; exact hs)
  have hstart : ((flight c σ xs).fire svc.exec i).prog i' = removePreset c {} (xs i').request :=
    (Pool.fire_prog_of_ne hii).trans (hi'.program c)
  -- the second removal
  obtain ⟨hkeyed, hfree⟩ := run_removal svc (by rw [hstate₁]; exact hσ) hs hn hi' hstart
    (by rw [hstate₁]; exact hholds)
  -- the check of the store
  have hcheck : ((flight c σ xs).run svc.exec [i, i', i']).prog j =
      storePreset c {} (xs j).request := by
    rw [flight_prog_of_notMem (by simp [hji, hji']), hj.program c]
  obtain ⟨-, hwrite⟩ := fire_store svc hkeyed hcheck
    (by rw [hj.submitted_shareId]; exact hs)
    (by rw [hj.submitted_shareId, hj.submitted_presetName]; exact hfree)
  refine not_removesOwn_of_strike [i, i', i', j]
    (foundKeys c svc (xs i).request σ) hne hn hi hj ?_
    hwrite hσ.valid_found (presetKey_mem_foundKeys hσ hn hi hholds)
  -- the first removal has not moved since its query
  have hrest : i ∉ [i', i', j] := by simp [hii.symm, hji.symm]
  have hkept : ((flight c σ xs).run svc.exec [i, i', i', j]).prog i =
      ((flight c σ xs).fire svc.exec i).prog i :=
    Pool.run_prog_of_notMem hrest
  rw [hkept]
  exact hfound

/-- **Every hazard is a schedule** in which a removal hits another owner's preset. -/
theorem Hazard.not_removesOwn (hσ : WellKeyed c σ) (h : Hazard σ xs) :
    ¬ RemovesOwn c svc σ xs := by
  obtain ⟨i, j, s, n, o, o', hs, hn, hne, hi, hj, hcase⟩ := h
  rcases hcase with ⟨hholds, i', hii, hi'⟩ | ⟨hfree, j', hj'⟩ |
    ⟨o₁, ho₁, hholds, ⟨i', hi'⟩, j', hj'⟩
  · exact not_removesOwn_of_twice hσ hs hn hne hi hj hii hi' hholds
  · exact not_removesOwn_of_free [] hσ hs hn hne hi hj hj'
      (by simp) hfree
  · -- the holder's removal frees the pair first
    have hii : i ≠ i' := by
      rintro rfl
      exact ho₁ (hi'.ownerId.symm.trans hi.ownerId)
    obtain ⟨-, hfree⟩ := @run_removal ι xs i' s n o₁ _ c (flight c σ xs) svc hσ hs hn hi'
      (hi'.program c) hholds
    exact not_removesOwn_of_free [i', i'] hσ hs hn hne hi hj hj'
      (by simp [hii, hj.ne_of_removal hi', hj'.ne_of_removal hi']) hfree

/-! ### Where a found preset may have gone -/

/-- An owner of a pair held it in `σ₀` or has a store for it in flight. -/
def Sourced (σ₀ : Store) (xs : ι → Inquiry) (s n o : GoString) : Prop :=
  Holds σ₀ s n o ∨ ∃ j, StoreFor (xs j) s n o

/-- What is known of a key that a removal has found: a preset that matched was
there, and what is there now is the same owner's or was stored by a request in
flight, under a name. -/
structure Tracked (c : Context) (σ₀ : Store) (xs : ι → Inquiry) (x : Inquiry) (σ : Store)
    (k : Key) : Prop where
  used : k ∈ σ.used
  collected : ∃ p, Filed c k p ∧ Matches (x.request.formValue "shareId")
    (x.request.formValue "ownerId") (x.request.formValue "presetName") p ∧
      Sourced σ₀ xs p.shareId p.presetName p.ownerId
  current : ∀ p, Has σ k p → p.ownerId = x.request.formValue "ownerId" ∨
    p.presetName ≠ "" ∧ ∃ j, StoreFor (xs j) p.shareId p.presetName p.ownerId

theorem storeFor_submitted {x : Inquiry} (hx : x.endpoint = .store) :
    StoreFor x (submitted x.request).shareId (submitted x.request).presetName
      (submitted x.request).ownerId :=
  ⟨hx, rfl, rfl, rfl⟩

omit [DecidableEq ι] in
/-- **The keys that removals have found are tracked.** -/
theorem kept_tracked (c : Context) (svc : Service) (σ₀ : Store) (xs : ι → Inquiry) :
    Kept c svc xs
      (fun σ => ∀ k p, Has σ k p → Sourced σ₀ xs p.shareId p.presetName p.ownerId)
      (fun _ _ => True)
      (fun i σ keys => ∀ k ∈ keys, Tracked c σ₀ xs (xs i) σ k) where
  grant := fun _ _ _ _ _ _ _ => trivial
  collect := by
    intro σ i hσ hsourced _ k hk
    obtain ⟨p, hp, hmatches⟩ := (mem_foundKeys hσ).mp hk
    refine ⟨KeyedStore.mem_used hp, ⟨p, hσ.filed hp, hmatches, hsourced k p hp⟩, fun p' hp' => ?_⟩
    rw [hp'.unique hp]
    exact .inl hmatches.ownerId
  write := by
    intro σ i hσ hsourced hx hs _
    refine ⟨?_, fun _ => id, ?_⟩
    · -- a new preset is a request's
      intro k p hp
      rcases has_written.mp hp with ⟨-, rfl⟩ | ⟨-, hp⟩
      · exact .inr ⟨i, storeFor_submitted hx⟩
      · exact hsourced k p hp
    · intro j keys htracked k hk
      obtain ⟨hused, hcollected, hcurrent⟩ := htracked k hk
      refine ⟨Finset.mem_insert_of_mem hused, hcollected, fun p hp => ?_⟩
      rcases has_written.mp hp with ⟨hkey, rfl⟩ | ⟨-, hp⟩
      · -- the write is to a used key, so it has a name
        refine .inr ⟨fun hn => ?_, i, storeFor_submitted hx⟩
        rw [hkey] at hused
        exact writtenKey_unnamed_notMem hn hused
      · exact hcurrent p hp
  delete := by
    intro σ i keys _ hsourced _ _
    refine ⟨fun k p hp => hsourced k p (has_eraseAll.mp hp).1, fun _ => id, ?_⟩
    intro j keys' htracked k hk
    obtain ⟨hused, hcollected, hcurrent⟩ := htracked k hk
    refine ⟨?_, hcollected, fun p hp => hcurrent p (has_eraseAll.mp hp).1⟩
    rw [KeyedStore.used_eraseAll]
    exact hused

/-! ### A pair stays with its holder -/

/-- The owner `o` holds the pair; granted stores for it are by `o`, and the
removals that have found its key are removals for it by `o`. -/
def Intact (c : Context) (xs : ι → Inquiry) (s n o : GoString)
    (P : Pool datastore ι Store Served) : Prop :=
  Holds P.state s n o ∧
    Phases c xs (fun i => ∀ o', StoreFor (xs i) s n o' → o' = o)
      (fun i keys => presetKey c s n ∈ keys → RemovalFor (xs i) s n o) P

/-- A removal for the pair by its holder has ended. -/
def RemovalEnded (xs : ι → Inquiry) (s n o : GoString) (P : Pool datastore ι Store Served) :
    Prop :=
  ∃ i a, RemovalFor (xs i) s n o ∧ P.prog i = .ret a

/-- **One call leaves a pair with its holder**, unless it is the deletion of a
removal by the holder. -/
theorem Intact.step (svc : Service) (hP : WellKeyed c P.state) (hn : n ≠ "")
    (h : Intact c xs s n o P) {call : Call} {k : call.Reply → Prog datastore Served}
    (hi : P.prog i = .call (I := datastore) call k) :
    RemovalEnded xs s n o (P.step (I := datastore) svc.exec i call k) ∨
      Intact c xs s n o (P.step (I := datastore) svc.exec i call k) := by
  obtain ⟨hholds, hphases⟩ := h
  -- a check grants the pair to nobody but its holder
  have hgrant : (xs i).endpoint = .store → (submitted (xs i).request).shareId ≠ "" →
      Granted P.state (xs i).request → ∀ o', StoreFor (xs i) s n o' → o' = o := by
    intro _ _ hgranted o' hex
    obtain ⟨-, rfl, rfl, rfl⟩ := hex
    rcases hgranted with hfree | hown
    · exact absurd ⟨o, hholds⟩ hfree
    · exact hP.owner_unique hn hown hholds
  -- and only a removal by the holder finds its key
  have hcollect : (xs i).endpoint = .remove →
      presetKey c s n ∈ foundKeys c svc (xs i).request P.state → RemovalFor (xs i) s n o := by
    intro hx hkey
    obtain ⟨p, hp, hmatches⟩ := (mem_foundKeys hP).mp hkey
    obtain ⟨k₀, p₀, hp₀, rfl, rfl, rfl⟩ := hholds
    rw [(hP.filed hp₀).eq_presetKey hn] at hp₀
    obtain rfl := hp.unique hp₀
    exact ⟨hx, hmatches.shareId.symm, hmatches.ownerId.symm,
      fun hne => (hmatches.presetName hne).symm⟩
  obtain ⟨next, τ, hnext, hτ, hfired⟩ := hphases.fired hP hi hgrant hcollect
  unfold Intact
  rw [hτ]
  cases hfired with
  | read hphase =>
    exact .inr ⟨hholds, hphases.step hnext hphase (fun _ => id) (fun _ _ => id)⟩
  | write hx hs hW =>
    refine .inr ⟨?_, hphases.step hnext (.returned _ _) (fun _ => id) (fun _ _ => id)⟩
    rcases hholds.written hP hs with hheld | ⟨rfl, rfl⟩
    · exact hheld
    · -- what is written is a preset of the pair, and so of its holder
      rw [← hW _ (storeFor_submitted hx)]
      exact holds_submitted
  | delete hx keys hD =>
    by_cases hkey : presetKey c s n ∈ keys
    · -- the removal has been answered
      exact .inl ⟨i, _, hD hkey, hnext⟩
    · refine .inr ⟨?_, hphases.step hnext (.returned _ _) (fun _ => id) (fun _ _ => id)⟩
      obtain ⟨k₀, p₀, hp₀, rfl, rfl, rfl⟩ := hholds
      rw [← (hP.filed hp₀).eq_presetKey hn] at hkey
      exact (has_eraseAll.mpr ⟨hp₀, hkey⟩).holds

/-- **A pair stays with its holder** until a removal for it by the holder has ended. -/
theorem intact_run (svc : Service) (xs : ι → Inquiry) (hσ : WellKeyed c σ) (hn : n ≠ "")
    (h : Holds σ s n o) (sched : List ι) :
    RemovalEnded xs s n o ((flight c σ xs).run svc.exec sched) ∨
      Intact c xs s n o ((flight c σ xs).run svc.exec sched) := by
  -- by induction on the schedule from its end, one more firing at a time
  induction sched using List.reverseRecOn with
  | nil => exact .inr ⟨h, fun i => .start (xs i)⟩
  | append_singleton sched i ih =>
    have hkeyed := flight_wellKeyed svc hσ xs sched
    rw [Pool.run_append]
    rcases ih with ⟨j, a, hj, hret⟩ | hintact
    · exact .inl ⟨j, a, hj, Pool.run_prog_ret hret [i]⟩
    · cases hi : ((flight c σ xs).run svc.exec sched).prog i with
      | ret a =>
        rw [Pool.run_cons, Pool.fire_ret hi, Pool.run_nil]
        exact .inr hintact
      | call call k =>
        rw [Pool.run_cons, Pool.fire_call hi, Pool.run_nil]
        exact hintact.step svc hkeyed hn hi

/-! ### When removals are safe -/

/-- **When removals in flight are safe.** From every store that completed requests
lead to, in any interleaving of the calls of any number of requests, a removal
deletes only what matches its own form values, if and only if the requests in
flight are no hazard. -/
theorem removesOwn_iff (c : Context) (svc : Service) (σ : Store) (hσ : Reachable c svc σ)
    (xs : ι → Inquiry) : RemovesOwn c svc σ xs ↔ ¬ Hazard σ xs := by
  refine ⟨?_, ?_⟩
  · intro hown hhazard
    exact hhazard.not_removesOwn hσ.wellKeyed hown
  intro hno sched i keys k hi key hkey old hold
  have hstart : ∀ k p, Has σ k p → Sourced σ xs p.shareId p.presetName p.ownerId :=
    fun k p hp => .inl hp.holds
  obtain ⟨hkeyed, -, hphases⟩ := flight_run (kept_tracked c svc σ xs) hσ.wellKeyed hstart sched
  obtain ⟨hx, htracked⟩ := (hphases i).of_delete hi
  -- `p₀` is the preset that was found under the key, `p` the one there now
  obtain ⟨-, ⟨p₀, hfiled₀, hmatches, hsourced⟩, hcurrent⟩ := htracked key hkey
  obtain ⟨p, rfl, hp, hfiled⟩ := hkeyed.exists_has hold
  -- the share id and the name are those of the key, and only the owner is at stake
  obtain ⟨hshare, hname⟩ := hfiled.unique hfiled₀
  rw [SharedPreset.indexedValue_ownerId, SharedPreset.indexedValue_shareId,
    SharedPreset.indexedValue_presetName, Option.some.injEq, Option.some.injEq, Option.some.injEq]
  refine ⟨?_, hshare.trans hmatches.shareId, fun hne => hname.trans (hmatches.presetName hne)⟩
  by_contra howner
  obtain ⟨hn, j, hj⟩ := (hcurrent p hp).resolve_left howner
  have hremoval : RemovalFor (xs i) p.shareId p.presetName
      ((xs i).request.formValue "ownerId") :=
    ⟨hx, (hshare.trans hmatches.shareId).symm, rfl,
      fun hne => (hname.trans (hmatches.presetName hne)).symm⟩
  rw [← hshare, ← hname, hmatches.ownerId] at hsourced
  refine hno ⟨i, j, p.shareId, p.presetName, (xs i).request.formValue "ownerId", p.ownerId,
    hfiled.shareId_ne, hn, howner, hremoval, hj, ?_⟩
  by_cases htaken : Taken σ p.shareId p.presetName
  · obtain ⟨o₁, hholds⟩ := htaken
    by_cases ho₁ : o₁ = (xs i).request.formValue "ownerId"
    · -- the removal's owner held the pair, so another removal has ended
      rw [ho₁] at hholds
      refine .inl ⟨hholds, ?_⟩
      rcases intact_run svc xs hσ.wellKeyed hn hholds sched with
        ⟨i', a, hi', hret⟩ | ⟨hheld, -⟩
      · refine ⟨i', ?_, hi'⟩
        rintro rfl
        exact absurd (hi.symm.trans hret) (by simp)
      · exact absurd (hkeyed.owner_unique hn hp.holds hheld) howner
    · -- another owner held it, so that owner's removal has ended
      have hsource : ∃ j', StoreFor (xs j') p.shareId p.presetName
          ((xs i).request.formValue "ownerId") :=
        hsourced.resolve_left fun h => ho₁ (hσ.wellKeyed.owner_unique hn hholds h)
      refine .inr (.inr ⟨o₁, ho₁, hholds, ?_, hsource⟩)
      rcases intact_run svc xs hσ.wellKeyed hn hholds sched with
        ⟨i', a, hi', -⟩ | ⟨-, hintact⟩
      · exact ⟨i', hi'⟩
      · obtain ⟨-, hfound⟩ := (hintact i).of_delete hi
        rw [hfiled.eq_presetKey hn] at hkey
        exact absurd (hfound hkey).ownerId.symm ho₁
  · -- the pair was free, so what was found is of a store in flight
    refine .inr (.inl ⟨htaken, ?_⟩)
    exact hsourced.resolve_left fun h => htaken ⟨_, h⟩

namespace Sample

/-- Ann removes her preset while Bob stores one of the same name. -/
def removeAndStore : Bool → Inquiry
  | false => ⟨.remove, ann⟩
  | true => ⟨.store, bob⟩

/-- Ann removes her preset, twice, while Bob stores one of the same name. -/
def removeTwiceAndStore : Fin 3 → Inquiry
  | 0 => ⟨.remove, ann⟩
  | 1 => ⟨.remove, ann⟩
  | 2 => ⟨.store, bob⟩

end Sample

/-- Ann's one removal is safe from Bob's store. -/
theorem removesOwn_ann_bob :
    RemovesOwn Sample.context .inKeyOrder (Sample.after [⟨.store, Sample.ann⟩])
      Sample.removeAndStore := by
  refine (removesOwn_iff Sample.context .inKeyOrder _ (Sample.reachable_after _)
    Sample.removeAndStore).mpr ?_
  intro h
  obtain ⟨i, j, s, n, o, o', -, -, -, hi, hj, hcase⟩ := h
  have hnone : ∀ j', ¬ StoreFor (Sample.removeAndStore j') s n o := by
    intro j' hj'
    cases i with
    | true => exact absurd hi.endpoint (by decide)
    | false =>
      cases j' with
      | false => exact absurd hj'.endpoint (by decide)
      | true => exact absurd (hj'.ownerId.trans hi.ownerId.symm) (by decide)
  rcases hcase with ⟨-, i', hii, hi'⟩ | ⟨-, j', hj'⟩ | ⟨-, -, -, -, j', hj'⟩
  · cases i with
    | true => exact absurd hi.endpoint (by decide)
    | false =>
      cases i' with
      | false => exact hii rfl
      | true => exact absurd hi'.endpoint (by decide)
  · exact hnone j' hj'
  · exact hnone j' hj'

/-- **Ann's two removals are not**: one of them may delete Bob's preset, and no two
stores overlap. -/
theorem removesOwn_twice_ann_bob :
    ¬ RemovesOwn Sample.context .inKeyOrder (Sample.after [⟨.store, Sample.ann⟩])
      Sample.removeTwiceAndStore := by
  have hann : ∀ i : Fin 3, i ≠ 2 →
      RemovalFor (Sample.removeTwiceAndStore i) "team" "wide" "ann" := by
    intro i hi
    match i with
    | 0 => exact ⟨rfl, rfl, rfl, fun _ => rfl⟩
    | 1 => exact ⟨rfl, rfl, rfl, fun _ => rfl⟩
    | 2 => exact absurd rfl hi
  have hhazard : Hazard (Sample.after [⟨.store, Sample.ann⟩]) Sample.removeTwiceAndStore :=
    ⟨0, 2, "team", "wide", "ann", "bob", by decide, by decide, by decide, hann 0 (by decide),
      ⟨rfl, rfl, rfl, rfl⟩, .inl ⟨Sample.holds_ann, 1, by decide, hann 1 (by decide)⟩⟩
  exact hhazard.not_removesOwn (Sample.reachable_after _).wellKeyed

end PluginsDatastore
