import PluginsDatastore.DataStore.Interleaved

/-!
# Retries

A client whose request fails does not know whether it took effect, and sends it
again. `retries` says that this is harmless, except for a store without a name, of
which every copy that takes effect adds a preset: after any number of copies of one
request, sent at once or one after another, finished or not, and with any of their
calls failing in any way, the request gets the answer and leaves the store that it
would have got and left as the first.

What the copies can do together is `copies_store` and `copies_remove`: a store of a
named preset is written or it is not, and a removal has taken some of what it is to
take.
-/

namespace PluginsDatastore

open Calls

variable {ι : Type} [DecidableEq ι]

variable {c : Context} {svc : Service} {σ τ : Store} {r : Request} {sched : List ι}
  {Q : Pool datastore ι Store Served}

/-! ### Stores -/

/-- Writing a preset with a name twice is writing it once. -/
theorem written_written (hn : (submitted r).presetName ≠ "") :
    written c svc r (written c svc r σ) = written c svc r σ := by
  have hput : ∀ τ, written c svc r τ =
      τ.put (presetKey c (submitted r).shareId (submitted r).presetName) (submitted r).save := by
    intro τ
    rw [written, putKey_named hn]
  rw [hput, hput, KeyedStore.put_put]

omit [DecidableEq ι] in
/-- Copies of a store write its preset, if it is granted at the start, or nothing. -/
theorem upheld_copies_store (c : Context) (svc : Service) (σ : Store)
    (hn : (submitted r).presetName ≠ "") :
    Upheld c svc (fun _ : ι => (⟨.store, r⟩ : Inquiry))
      (fun τ => τ = σ ∨ Granted σ r ∧ (submitted r).shareId ≠ "" ∧ τ = written c svc r σ)
      (fun _ _ => Granted σ r) (fun _ _ _ => True) where
  grant := by
    intro τ _ _ hτ _ _ hgranted
    rcases hτ with rfl | ⟨h, -, -⟩
    · exact hgranted
    · exact h
  collect := fun _ _ _ _ _ _ _ => trivial
  change := by
    intro τ τ' _ _ hτ hchange
    refine ⟨?_, fun _ => id, fun _ _ => id⟩
    cases hchange with
    | none => exact hτ
    | write _ hs hgranted =>
      refine .inr ⟨hgranted, hs, ?_⟩
      rcases hτ with rfl | ⟨-, -, rfl⟩
      · rfl
      · exact written_written hn -- a copy has written before
    | delete hx _ _ _ _ => exact absurd hx (by simp)

theorem copies_store (hσ : WellKeyed c σ) (hn : (submitted r).presetName ≠ "")
    (h : Trace (Pool.Fires (I := datastore) svc.Exec)
      (flight c σ fun _ : ι => ⟨.store, r⟩) sched Q) :
    Q.state = σ ∨
      Granted σ r ∧ (submitted r).shareId ≠ "" ∧ Q.state = written c svc r σ :=
  ((upheld_copies_store c svc σ hn).trace h hσ (.inl rfl)).2.1

/-! ### Removals -/

/-- All keys are of presets that the removal is to remove. -/
def OnlyMatching (σ : Store) (r : Request) (keys : List Key) : Prop :=
  ∀ k ∈ keys, ∃ p, Has σ k p ∧
    Matches (r.formValue "shareId") (r.formValue "ownerId") (r.formValue "presetName") p

omit [DecidableEq ι] in
/-- Copies of a removal delete what it is to remove, in any parts. -/
theorem upheld_copies_remove (c : Context) (svc : Service) (σ : Store) (r : Request) :
    Upheld c svc (fun _ : ι => (⟨.remove, r⟩ : Inquiry))
      (fun τ => ∃ deleted, OnlyMatching σ r deleted ∧ τ = σ.eraseAll deleted)
      (fun _ _ => True) (fun _ _ keys => OnlyMatching σ r keys) where
  grant := fun _ _ _ _ _ _ _ => trivial
  collect := by
    intro τ _ _ hex _ keys hkeys k hk
    obtain ⟨deleted, -, rfl⟩ := hex
    -- what is found later was there at the start
    obtain ⟨p, hp, hmatches⟩ := (hkeys k).mp hk
    exact ⟨p, (has_eraseAll.mp hp).1, hmatches⟩
  change := by
    intro τ τ' _ _ hex hchange
    refine ⟨?_, fun _ => id, fun _ _ => id⟩
    obtain ⟨deleted, honly, rfl⟩ := hex
    cases hchange with
    | none => exact ⟨deleted, honly, rfl⟩
    | write hx _ _ => exact absurd hx (by simp)
    | delete _ keys deleted' hkeys hsub =>
      refine ⟨deleted ++ deleted', fun k hk => ?_, KeyedStore.eraseAll_append⟩
      rcases List.mem_append.mp hk with hk | hk
      · exact honly k hk
      · exact hkeys k (hsub hk)

theorem copies_remove (hσ : WellKeyed c σ)
    (h : Trace (Pool.Fires (I := datastore) svc.Exec)
      (flight c σ fun _ : ι => ⟨.remove, r⟩) sched Q) :
    ∃ deleted, OnlyMatching σ r deleted ∧ Q.state = σ.eraseAll deleted :=
  ((upheld_copies_remove c svc σ r).trace h hσ
    ⟨[], fun k hk => absurd hk (by simp), rfl⟩).2.1

/-- A removal finds what is left of it, and deletes it. -/
theorem eraseAll_foundKeys {deleted : List Key} (hσ : WellKeyed c σ)
    (honly : OnlyMatching σ r deleted) :
    (σ.eraseAll deleted).eraseAll (foundKeys c svc r (σ.eraseAll deleted)) =
      σ.eraseAll (foundKeys c svc r σ) := by
  rw [KeyedStore.eraseAll_append]
  refine KeyedStore.eraseAll_congr fun k => ?_
  rw [List.mem_append, mem_foundKeys (hσ.eraseAll deleted), mem_foundKeys hσ]
  refine ⟨?_, ?_⟩
  · rintro (hk | ⟨p, hp, hmatches⟩)
    · exact honly k hk
    · exact ⟨p, (has_eraseAll.mp hp).1, hmatches⟩
  · rintro ⟨p, hp, hmatches⟩
    by_cases hk : k ∈ deleted
    · exact .inl hk
    · exact .inr ⟨p, has_eraseAll.mpr ⟨hp, hk⟩, hmatches⟩

/-! ### All requests -/

omit [DecidableEq ι] in
/-- Copies of a request that only reads change nothing. -/
theorem upheld_copies_read {x : Inquiry} (hs : x.endpoint ≠ .store) (hr : x.endpoint ≠ .remove)
    (σ : Store) : Upheld c svc (fun _ : ι => x) (fun τ => τ = σ) (fun _ _ => True)
      (fun _ _ _ => True) where
  grant := fun _ _ _ _ _ _ _ => trivial
  collect := fun _ _ _ _ _ _ _ => trivial
  change := by
    intro τ τ' _ _ hτ hchange
    refine ⟨?_, fun _ => id, fun _ _ => id⟩
    cases hchange with
    | none => exact hτ
    | write hx _ _ => exact absurd hx hs
    | delete hx _ _ _ _ => exact absurd hx hr

/-- **Retries are harmless.** Take any request but a store without a name. After any
number of copies of it on a reachable store, interleaved in any way, finished or not,
and with any of their calls failing, the request served alone gets the same answer
and leaves the same store as if no copy had been sent before. -/
theorem retries (c : Context) (svc : Service) (σ : Store) (hσ : Reachable c svc σ) (x : Inquiry)
    (hx : x.endpoint = .store → x.request.formValue "presetName" ≠ "") (sched : List ι)
    (Q : Pool datastore ι Store Served)
    (h : Trace (Pool.Fires (I := datastore) svc.Exec) (flight c σ fun _ : ι => x) sched Q) :
    serve c svc Q.state x = serve c svc σ x := by
  have hkeyed := hσ.wellKeyed
  have hQ := hkeyed.interleaved h
  obtain ⟨endpoint, r⟩ := x
  cases endpoint with
  | load =>
    have hstate := ((upheld_copies_read (by simp) (by simp) σ).trace h hkeyed rfl).2.1
    rw [hstate]
  | getShareIds =>
    have hstate := ((upheld_copies_read (by simp) (by simp) σ).trace h hkeyed rfl).2.1
    rw [hstate]
  | store =>
    rcases copies_store hkeyed (hx rfl) h with hstate | ⟨hgranted, hs, hstate⟩
    · rw [hstate]
    · -- a copy has written, and the owner's own preset grants the write again
      rw [hstate] at hQ ⊢
      have hagain : (storePreset c {} r).eval svc.exec (written c svc r σ) =
          (done {} r, written c svc r (written c svc r σ)) :=
        eval_storePreset_granted hQ hs (.inr holds_submitted)
      calc serve c svc (written c svc r σ) ⟨.store, r⟩
          = (done {} r, written c svc r (written c svc r σ)) := hagain
        _ = (done {} r, written c svc r σ) := by rw [written_written (hx rfl)]
        _ = serve c svc σ ⟨.store, r⟩ := (eval_storePreset_granted hkeyed hs hgranted).symm
  | remove =>
    obtain ⟨deleted, honly, hstate⟩ := copies_remove hkeyed h
    rw [hstate] at hQ ⊢
    by_cases hs : r.formValue "shareId" = ""
    · -- nothing is stored without a share id, so nothing has been deleted
      have hnil : deleted = [] := by
        rw [List.eq_nil_iff_forall_not_mem]
        intro k hk
        obtain ⟨p, hp, hmatches⟩ := honly k hk
        exact (hkeyed.filed hp).shareId_ne (hmatches.shareId.trans hs)
      rw [hnil, KeyedStore.eraseAll_nil]
    · calc serve c svc (σ.eraseAll deleted) ⟨.remove, r⟩
          = (done {} r,
              (σ.eraseAll deleted).eraseAll (foundKeys c svc r (σ.eraseAll deleted))) :=
            eval_removePreset hQ hs
        _ = (done {} r, σ.eraseAll (foundKeys c svc r σ)) := by
            rw [eraseAll_foundKeys hkeyed honly]
        _ = serve c svc σ ⟨.remove, r⟩ := (eval_removePreset hkeyed hs).symm

/-- Ann's store after two copies of it. One has been written, though its write was answered
by an error, and the other is about to write. -/
theorem retries_ann : ∃ Q, Trace (Pool.Fires (I := datastore) Service.inKeyOrder.Exec)
    (flight Sample.context KeyedStore.empty fun _ : Bool => ⟨.store, Sample.ann⟩)
      [true, false, true] Q ∧
    Q.prog true = .ret (failed {} (.new "timeout")) ∧
    Has Q.state (presetKey Sample.context "team" "wide") (submitted Sample.ann) ∧
    serve Sample.context .inKeyOrder Q.state ⟨.store, Sample.ann⟩ =
      serve Sample.context .inKeyOrder KeyedStore.empty ⟨.store, Sample.ann⟩ := by
  have htrace : ∃ Q, Trace (Pool.Fires (I := datastore) Service.inKeyOrder.Exec)
      (flight Sample.context KeyedStore.empty fun _ : Bool => ⟨.store, Sample.ann⟩)
        [true, false, true] Q ∧ Q.prog true = .ret (failed {} (.new "timeout")) ∧
      Has Q.state (presetKey Sample.context "team" "wide") (submitted Sample.ann) :=
    ⟨_, .cons (.call storePreset_eq (.ok _ _))
      (.cons (.call (storePreset_eq (c := Sample.context) (r := Sample.ann)) (.ok _ _))
        (.cons (.call rfl (.putApplied _ _ _ (.new "timeout"))) (.nil _))), by rfl, by rfl⟩
  obtain ⟨Q, hQ, hret, hhas⟩ := htrace
  exact ⟨Q, hQ, hret, hhas, retries Sample.context .inKeyOrder _ Reachable.empty _
    (fun _ => by decide) _ Q hQ⟩

end PluginsDatastore
