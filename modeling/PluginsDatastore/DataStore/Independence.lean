import PluginsDatastore.DataStore.Flight
import PluginsDatastore.DataStore.Runs

/-!
# Independent requests in flight

Two stores or removals are `Apart` when their share ids differ, or when both have
a name and the names differ. Such requests are about different presets, those
they `Cover`, and so the calls of one cannot be told to have happened by the
calls of another: this is `Pool.Independent`, for the reading of a store as its
entities without the ids that were generated (`upToNewIDs`).

`apart_requests_commute` is the consequence: in any interleaving, requests that
are pairwise apart get the responses, and leave the presets, of handling them one
after another in any order.
-/

namespace PluginsDatastore

open Calls

/-! ### What a request is about -/

/-- The presets that a store or a removal looks at, writes or deletes. -/
structure Covers (x : Inquiry) (p : SharedPreset) : Prop where
  shareId : p.shareId = x.request.formValue "shareId"
  presetName : x.request.formValue "presetName" ≠ "" →
    p.presetName = x.request.formValue "presetName"

/-- Two requests are independent. -/
def Apart (x y : Inquiry) : Prop :=
  x.request.formValue "shareId" ≠ y.request.formValue "shareId" ∨
    (x.request.formValue "shareId" = y.request.formValue "shareId" ∧
      x.request.formValue "presetName" ≠ "" ∧ y.request.formValue "presetName" ≠ "" ∧
      x.request.formValue "presetName" ≠ y.request.formValue "presetName")

/-- The stored pairs, with the ids of the keys that are not among those used in
`σ₀` left out. -/
def upToNewIDs (σ₀ σ : Store) : Multiset (Key × List Property) :=
  σ.entries.map fun e => (if e.1 ∈ σ₀.used then e.1 else e.1.withID 0, e.2)

/-- The presets that a request covers are the same in two stores. -/
def SameCovered (x : Inquiry) (σ τ : Store) : Prop :=
  ∀ k p, Covers x p → (Has σ k p ↔ Has τ k p)

variable {c : Context} {svc : Service} {σ σ₀ τ : Store} {x y : Inquiry} {r : Request}
  {k : Key} {p p' : SharedPreset}

/-- No preset is covered by both of two requests that are apart. -/
theorem Apart.not_covers (h : Apart x y) (hx : Covers x p) : ¬ Covers y p := by
  intro hy
  rcases h with hshare | ⟨-, hnx, hny, hne⟩
  · exact hshare (hx.shareId.symm.trans hy.shareId)
  · exact hne ((hx.presetName hnx).symm.trans (hy.presetName hny))

theorem covers_submitted (x : Inquiry) : Covers x (submitted x.request) := ⟨rfl, fun _ => rfl⟩

/-- A request covers all presets that belong under a key, or none of them. -/
theorem Covers.of_filed (h : Covers x p) (hp : Filed c k p) (hp' : Filed c k p') : Covers x p' := by
  obtain ⟨hshare, hname⟩ := hp.unique hp'
  exact ⟨hshare.symm.trans h.shareId, fun hn => hname.symm.trans (h.presetName hn)⟩

theorem Matches.covers (h : Matches (r.formValue "shareId") (r.formValue "ownerId")
    (r.formValue "presetName") p) : Covers ⟨.remove, r⟩ p :=
  ⟨h.shareId, h.presetName⟩

/-! ### Reads -/

/-- A query about covered presets only finds the same in stores that have the
same of them. -/
theorem SameCovered.found_eq {q : Query} (h : SameCovered x σ τ) (hσ : WellKeyed c σ)
    (hτ : WellKeyed c τ) (hq : ∀ k p, Filed c k p → q.isResult k p.save = true → Covers x p) :
    svc.found q σ = svc.found q τ := by
  -- what the one store yields, the other does
  have hyields : ∀ {ρ ρ' : Store}, WellKeyed c ρ → (∀ k p, Covers x p → Has ρ k p → Has ρ' k p) →
      ∀ k e, (ρ.get k).bind (q.yield k) = some e → (ρ'.get k).bind (q.yield k) = some e := by
    intro ρ ρ' hρ hhas k e he
    obtain ⟨props, hget, hyield⟩ := Option.bind_eq_some_iff.mp he
    obtain ⟨p, rfl, hp, hfiled⟩ := hρ.exists_has hget
    by_cases hres : q.isResult k p.save = true
    · -- the preset is covered, and so in both
      have hp' : ρ'.get k = some p.save := hhas k p (hq k p hfiled hres) hp
      rw [hp', Option.bind_some]
      exact hyield
    · rw [Query.yield, if_neg hres] at hyield
      exact absurd hyield (by simp)
  refine Service.found_congr fun k => Option.ext fun e => ?_
  exact ⟨hyields hσ (fun k p hp => (h k p hp).mp) k e,
    hyields hτ (fun k p hp => (h k p hp).mpr) k e⟩

theorem SameCovered.results_eq {q : Query} (h : SameCovered x σ τ) (hσ : WellKeyed c σ)
    (hτ : WellKeyed c τ) (hdistinct : q.distinct = false)
    (hq : ∀ k p, Filed c k p → q.isResult k p.save = true → Covers x p) :
    svc.results q σ = svc.results q τ := by
  rw [Service.results_of_not_distinct hdistinct, Service.results_of_not_distinct hdistinct]
  exact h.found_eq hσ hτ hq

theorem covers_named (hp : Filed c k p) (hres : (named c (submitted r).shareId
    (submitted r).presetName).isResult k p.save = true) : Covers ⟨.store, r⟩ p := by
  obtain ⟨hshare, hname⟩ := hp.isResult_named.mp hres
  exact ⟨hshare, fun _ => hname⟩

theorem covers_ownedNamed (hp : Filed c k p) (hres : (ownedNamed c (submitted r).shareId
    (submitted r).ownerId (submitted r).presetName).isResult k p.save = true) :
    Covers ⟨.store, r⟩ p := by
  obtain ⟨hshare, -, hname⟩ := hp.isResult_ownedNamed.mp hres
  exact ⟨hshare, fun _ => hname⟩

theorem covers_toRemove (hp : Filed c k p) (hres : (toRemove c (r.formValue "shareId")
    (r.formValue "ownerId") (r.formValue "presetName")).isResult k p.save = true) :
    Covers ⟨.remove, r⟩ p :=
  (hp.isResult_toRemove.mp hres).covers

/-! ### Writes -/

/-- A write is invisible to the requests apart from it. -/
theorem SameCovered.written (hσ : WellKeyed c σ) (hs : (submitted x.request).shareId ≠ "")
    (hxy : Apart x y) (h : SameCovered y σ τ) : SameCovered y (written c svc x.request σ) τ := by
  intro k p hp
  rw [← h k p hp]
  refine ⟨?_, ?_⟩
  · intro hwritten
    rcases has_written.mp hwritten with ⟨-, rfl⟩ | ⟨-, hp'⟩
    · exact absurd hp (hxy.not_covers (covers_submitted x))
    · exact hp'
  · intro hp'
    refine has_written.mpr (.inr ⟨?_, hp'⟩)
    rintro rfl
    -- what the write would replace is covered by the request that writes
    exact hxy.not_covers ((covers_submitted x).of_filed (filed_writtenKey hs) (hσ.filed hp')) hp

/-- A deletion of covered presets is invisible to the requests apart from it. -/
theorem SameCovered.eraseAll {keys : List Key} (hσ : WellKeyed c σ)
    (hkeys : ∀ k ∈ keys, ∃ p, Filed c k p ∧ Covers x p) (hxy : Apart x y)
    (h : SameCovered y σ τ) : SameCovered y (σ.eraseAll keys) τ := by
  intro k p hp
  rw [← h k p hp]
  refine ⟨fun herased => (has_eraseAll.mp herased).1, fun hp' => has_eraseAll.mpr ⟨hp', ?_⟩⟩
  intro hk
  obtain ⟨p₀, hfiled, hcovers⟩ := hkeys k hk
  exact hxy.not_covers (hcovers.of_filed hfiled (hσ.filed hp')) hp

/-- Under the key of a covered preset there is the same in both stores. -/
theorem SameCovered.get_eq (h : SameCovered x σ τ) (hσ : WellKeyed c σ) (hτ : WellKeyed c τ)
    (hp : Filed c k p) (hcovers : Covers x p) : σ.get k = τ.get k := by
  refine Option.ext fun props => ?_
  refine ⟨?_, ?_⟩
  · intro hget
    obtain ⟨p', rfl, hp', hfiled⟩ := hσ.exists_has hget
    exact (h k p' (hcovers.of_filed hp hfiled)).mp hp'
  · intro hget
    obtain ⟨p', rfl, hp', hfiled⟩ := hτ.exists_has hget
    exact (h k p' (hcovers.of_filed hp hfiled)).mpr hp'

/-- **A write changes both stores alike**, up to the id it may generate. -/
theorem upToNewIDs_written (hσ : WellKeyed c σ) (hσ₀ : WellKeyed c σ₀)
    (hused : σ₀.used ⊆ σ.used) (h : SameCovered x σ σ₀)
    (hs : (submitted x.request).shareId ≠ "") :
    upToNewIDs σ₀ (written c svc x.request σ) + upToNewIDs σ₀ σ₀ =
      upToNewIDs σ₀ σ + upToNewIDs σ₀ (written c svc x.request σ₀) := by
  unfold written
  by_cases hn : (submitted x.request).presetName = ""
  · -- two new keys, that differ in their ids only
    have hnew : writtenKey c svc x.request σ ∉ σ.used := writtenKey_unnamed_notMem hn
    have hnew₀ : writtenKey c svc x.request σ₀ ∉ σ₀.used := writtenKey_unnamed_notMem hn
    refine KeyedStore.amount_create _ (KeyedStore.get_eq_none hnew)
      (KeyedStore.get_eq_none hnew₀) ?_
    have hincomplete : (presetKey c (submitted x.request).shareId
        (submitted x.request).presetName).incomplete = true := by
      rw [incomplete_presetKey]
      simpa using hn
    have hids : (writtenKey c svc x.request σ).withID 0 =
        (writtenKey c svc x.request σ₀).withID 0 := by
      unfold writtenKey
      rw [Service.putKey_of_incomplete hincomplete, Service.putKey_of_incomplete hincomplete]
      rfl
    have hread : ∀ {k : Key}, k ∉ σ₀.used → ∀ props : List Property,
        ((if k ∈ σ₀.used then k else k.withID 0), props) = (k.withID 0, props) := by
      intro k hk props
      rw [if_neg hk]
    calc _ = ((writtenKey c svc x.request σ).withID 0, (submitted x.request).save) :=
          hread (fun hmem => hnew (hused hmem)) _
      _ = ((writtenKey c svc x.request σ₀).withID 0, (submitted x.request).save) := by rw [hids]
      _ = _ := (hread hnew₀ _).symm
  · -- the same key, which holds the same in both
    rw [putKey_named hn, putKey_named hn]
    have hplace := @filed_writtenKey c svc σ x.request hs
    rw [writtenKey_named hn] at hplace
    exact KeyedStore.amount_put _ (h.get_eq hσ hσ₀ hplace (covers_submitted x))

theorem upToNewIDs_eraseAll {keys : List Key} (hσ : WellKeyed c σ) (hσ₀ : WellKeyed c σ₀)
    (h : SameCovered x σ σ₀) (hkeys : ∀ k ∈ keys, ∃ p, Filed c k p ∧ Covers x p) :
    upToNewIDs σ₀ (σ.eraseAll keys) + upToNewIDs σ₀ σ₀ =
      upToNewIDs σ₀ σ + upToNewIDs σ₀ (σ₀.eraseAll keys) := by
  refine KeyedStore.amount_eraseAll _ fun k hk => ?_
  obtain ⟨p, hp, hcovers⟩ := hkeys k hk
  exact h.get_eq hσ hσ₀ hp hcovers

/-! ### The programs -/

/-- Where a store or a removal is that has only read so far, and got the replies
it gets in `σ₀`. -/
inductive Pending (c : Context) (svc : Service) (σ₀ : Store) :
    Inquiry → Prog datastore Served → Prop
  | check (r : Request) : Pending c svc σ₀ ⟨.store, r⟩ (storePreset c {} r)
  | second (r : Request) : Pending c svc σ₀ ⟨.store, r⟩ (storeSecond c {} r)
  | write (r : Request) (hs : (submitted r).shareId ≠ "") :
      Pending c svc σ₀ ⟨.store, r⟩ (storeWrite c {} r)
  | find (r : Request) : Pending c svc σ₀ ⟨.remove, r⟩ (removePreset c {} r)
  | delete (r : Request) (hne : foundKeys c svc r σ₀ ≠ []) :
      Pending c svc σ₀ ⟨.remove, r⟩ (removeDelete {} r (foundKeys c svc r σ₀))
  | returned (x : Inquiry) (a : Served) : Pending c svc σ₀ x (.ret a)

theorem pending_storeGranted : Pending c svc σ₀ ⟨.store, r⟩ (storeGranted c {} r) := by
  unfold storeGranted
  by_cases hs : (submitted r).shareId = ""
  · rw [if_pos hs]
    exact .returned _ _
  · rw [if_neg hs]
    exact .write r hs

theorem pending_removeDelete :
    Pending c svc σ₀ ⟨.remove, r⟩ (removeDelete {} r (foundKeys c svc r σ₀)) := by
  by_cases hne : foundKeys c svc r σ₀ = []
  · rw [hne, removeDelete_nil]
    exact .returned _ _
  · exact .delete r hne

/-- A call that reads, of a request whose covered presets are as in `σ₀`. -/
structure Reads (c : Context) (svc : Service) (σ₀ : Store) (x : Inquiry) (call : Call)
    (k : call.Reply → Prog datastore Served) : Prop where
  state₀ : (svc.exec σ₀ call).2 = σ₀
  next : Pending c svc σ₀ x (k (svc.exec σ₀ call).1)
  state : ∀ σ, (svc.exec σ call).2 = σ
  reply : ∀ σ, WellKeyed c σ → SameCovered x σ σ₀ → (svc.exec σ call).1 = (svc.exec σ₀ call).1

/-- A call that writes, of a request whose covered presets are as in `σ₀`. The
request has then been answered. -/
structure Writes (c : Context) (svc : Service) (σ₀ : Store) (x : Inquiry) (call : Call)
    (k : call.Reply → Prog datastore Served) (a : Served) : Prop where
  answer : ∀ σ, k (svc.exec σ call).1 = .ret a
  keyed : ∀ σ, WellKeyed c σ → WellKeyed c (svc.exec σ call).2
  used : ∀ σ, σ.used ⊆ (svc.exec σ call).2.used
  apart : ∀ σ y, WellKeyed c σ → Apart x y → SameCovered y σ σ₀ →
    SameCovered y (svc.exec σ call).2 σ₀
  amount : ∀ σ, WellKeyed c σ → σ₀.used ⊆ σ.used → SameCovered x σ σ₀ →
    upToNewIDs σ₀ (svc.exec σ call).2 + upToNewIDs σ₀ σ₀ =
      upToNewIDs σ₀ σ + upToNewIDs σ₀ (svc.exec σ₀ call).2

/-- **The next call of a pending request.** -/
theorem Pending.call {q : Prog datastore Served} (h : Pending c svc σ₀ x q)
    (hσ₀ : WellKeyed c σ₀) {call : Call} {k : call.Reply → Prog datastore Served}
    (hq : q = .call (I := datastore) call k) :
    Reads c svc σ₀ x call k ∨ ∃ a, Writes c svc σ₀ x call k a := by
  cases h with
  -- the phases that read
  | check r =>
    rw [storePreset_eq] at hq
    cases hq
    refine .inl ⟨svc.exec_count_state _ _, ?_, fun σ => svc.exec_count_state _ _, ?_⟩
    · split
      · exact pending_storeGranted
      · exact .second r
    · intro σ hσ hsame
      refine Service.exec_count_congr ?_
      exact hsame.results_eq hσ hσ₀ rfl fun _ _ hp hres => covers_named hp hres
  | second r =>
    cases hq
    refine .inl ⟨svc.exec_count_state _ _, ?_, fun σ => svc.exec_count_state _ _, ?_⟩
    · split
      · exact pending_storeGranted
      · exact .returned _ _
    · intro σ hσ hsame
      refine Service.exec_count_congr ?_
      exact hsame.results_eq hσ hσ₀ rfl fun _ _ hp hres => covers_ownedNamed hp hres
  | write r hs =>
    cases hq
    refine .inr ⟨done {} r, fun _ => rfl, fun σ hσ => ?_, fun σ => ?_, ?_, ?_⟩
    · exact hσ.written hs
    · exact Finset.subset_insert _ _
    · intro σ y hσ hapart hsame
      exact SameCovered.written (x := ⟨.store, r⟩) hσ hs hapart hsame
    · intro σ hσ hused hsame
      exact upToNewIDs_written (x := ⟨.store, r⟩) hσ hσ₀ hused hsame hs
  | find r =>
    rw [removePreset_eq] at hq
    cases hq
    refine .inl ⟨svc.exec_runQuery_state _ _, ?_, fun σ => svc.exec_runQuery_state _ _, ?_⟩
    · cases hcases : svc.rejects (removalQuery c r) with
      | none =>
        rw [removeFound_answered hcases]
        exact pending_removeDelete
      | some err =>
        rw [removeFound_rejected hcases]
        exact .returned _ _
    · intro σ hσ hsame
      refine Service.exec_runQuery_congr ?_
      exact hsame.results_eq hσ hσ₀ distinct_toRemove fun _ _ hp hres => covers_toRemove hp hres
  | delete r hne =>
    rw [removeDelete_of_valid hne hσ₀.valid_found] at hq
    cases hq
    -- the keys found in `σ₀` are deleted, whatever the store is now
    have hkeys : ∀ k ∈ foundKeys c svc r σ₀, ∃ p, Filed c k p ∧ Covers ⟨.remove, r⟩ p := by
      intro k hk
      obtain ⟨p, hp, hmatches⟩ := (mem_foundKeys hσ₀).mp hk
      exact ⟨p, hσ₀.filed hp, hmatches.covers⟩
    refine .inr ⟨done {} r, fun _ => rfl, fun σ hσ => hσ.eraseAll _, fun σ => ?_, ?_, ?_⟩
    · rw [Service.exec_delete, KeyedStore.used_eraseAll]
    · intro σ y hσ hapart hsame
      exact hsame.eraseAll hσ hkeys hapart
    · intro σ hσ _ hsame
      exact upToNewIDs_eraseAll hσ hσ₀ hsame hkeys
  | returned _ a => exact absurd hq (by simp)

variable {ι : Type} [DecidableEq ι] {xs : ι → Inquiry}

omit [DecidableEq ι] in
/-- **Requests that are apart are independent programs.** -/
theorem independent (hσ₀ : WellKeyed c σ₀) (hxs : ∀ i j, i ≠ j → Apart (xs i) (xs j)) :
    Pool.Independent (I := datastore) svc.exec σ₀
      (fun σ => WellKeyed c σ ∧ σ₀.used ⊆ σ.used) (fun i σ => SameCovered (xs i) σ σ₀)
      (upToNewIDs σ₀) (fun i q => Pending c svc σ₀ (xs i) q) where
  call := by
    intro i call k hpending
    rcases hpending.call hσ₀ rfl with hreads | ⟨a, hwrites⟩
    · exact .inl ⟨⟨hreads.state₀, hreads.next⟩,
        fun σ hσ hsame => ⟨hreads.state σ, hreads.reply σ hσ.1 hsame⟩⟩
    · refine .inr ⟨a, hwrites.answer σ₀, fun σ hσ hsame => ⟨hwrites.answer σ, ?_, ?_, ?_⟩⟩
      · exact ⟨hwrites.keyed σ hσ.1, hσ.2.trans (hwrites.used σ)⟩
      · intro j hj hsame'
        exact hwrites.apart σ (xs j) hσ.1 (hxs i j hj.symm) hsame'
      · exact hwrites.amount σ hσ.1 hσ.2 hsame

/-! ### One after another -/

/-- The store after running requests in flight one after another. -/
theorem serial_state (svc : Service) {P : Pool datastore ι Store Served} {order : List ι}
    (hnodup : order.Nodup) (hstart : ∀ i ∈ order, P.prog i = (xs i).program c) :
    (P.serial svc.exec order).state = serveAll c svc P.state (order.map xs) := by
  induction order generalizing P with
  | nil => rfl
  | cons i order ih =>
    obtain ⟨hi, hnodup'⟩ := List.nodup_cons.mp hnodup
    have hfinish : (P.finish svc.exec i).state = (serve c svc P.state (xs i)).2 := by
      rw [Pool.finish, hstart i List.mem_cons_self]
      rfl
    -- the requests that come later have not started
    have hrest : ∀ j ∈ order, (P.finish svc.exec i).prog j = (xs j).program c := by
      intro j hj
      have hji : j ≠ i := fun h => hi (h ▸ hj)
      rw [Pool.finish_prog_of_ne hji, hstart j (List.mem_cons_of_mem i hj)]
    have hserial := ih hnodup' hrest
    rw [hfinish] at hserial
    exact hserial

/-- What a request is answered when its turn comes. -/
theorem serial_prog {P : Pool datastore ι Store Served} {before after : List ι} {i : ι}
    (hnodup : (before ++ i :: after).Nodup)
    (hstart : ∀ j ∈ before ++ i :: after, P.prog j = (xs j).program c) :
    (P.serial svc.exec (before ++ i :: after)).prog i =
      .ret (serve c svc (serveAll c svc P.state (before.map xs)) (xs i)).1 := by
  have hi : i ∉ before := fun hmem => (List.nodup_append.mp hnodup).2.2 i hmem i
    List.mem_cons_self rfl
  have hstate := serial_state svc (List.nodup_append.mp hnodup).1
    fun j hj => hstart j (List.mem_append_left _ hj)
  have hprog : (P.serial svc.exec before).prog i = (xs i).program c := by
    rw [Pool.serial_prog_of_notMem hi]
    exact hstart i (List.mem_append_right _ List.mem_cons_self)
  have hanswer : ((P.serial svc.exec before).finish svc.exec i).prog i =
      .ret (serve c svc (serveAll c svc P.state (before.map xs)) (xs i)).1 := by
    rw [Pool.finish, hprog, hstate]
    exact Function.update_self _ _ _
  rw [Pool.serial_append, Pool.serial_cons]
  exact Pool.serial_prog_ret hanswer after

/-- **Requests that are apart do not interfere.** From every store that completed
requests lead to, for any finite number of stores and removals that are pairwise
apart, and any interleaving of their calls in which all are answered: handling
them one after another, in every order, leaves the same presets under the same
keys, up to generated ids, and gives every request the same response. -/
theorem apart_requests_commute (c : Context) (svc : Service) (σ : Store)
    (hσ : Reachable c svc σ) [Fintype ι] (xs : ι → Inquiry)
    (hkind : ∀ i, (xs i).endpoint = .store ∨ (xs i).endpoint = .remove)
    (hxs : ∀ i j, i ≠ j → Apart (xs i) (xs j)) (sched : List ι)
    (hfin : ((flight c σ xs).run svc.exec sched).Finished) (order : List ι)
    (hnodup : order.Nodup) (horder : ∀ i, i ∈ order) :
    upToNewIDs σ ((flight c σ xs).run svc.exec sched).state =
        upToNewIDs σ (serveAll c svc σ (order.map xs)) ∧
      ∀ before i after, order = before ++ i :: after →
        ((flight c σ xs).run svc.exec sched).prog i =
          .ret (serve c svc (serveAll c svc σ (before.map xs)) (xs i)).1 := by
  have hstart : ∀ i, Pending c svc σ (xs i) ((xs i).program c) := by
    intro i
    have hi := hkind i
    generalize xs i = x at hi
    obtain ⟨endpoint, r⟩ := x
    rcases hi with rfl | rfl
    · exact .check r
    · exact .find r
  -- the serial execution is an interleaving too, and all interleavings agree
  obtain ⟨sched', hserial⟩ := Pool.exists_run_eq_serial (E := svc.exec) (flight c σ xs) order
  have hfin' : ((flight c σ xs).run svc.exec sched').Finished := by
    rw [hserial]
    exact Pool.serial_finished horder
  obtain ⟨hprog, hstate⟩ := Pool.independent_agree (independent hσ.wellKeyed hxs) rfl
    ⟨hσ.wellKeyed, Finset.Subset.refl _⟩ (fun i k p _ => Iff.rfl) hstart hfin hfin'
  rw [hserial] at hprog hstate
  refine ⟨?_, ?_⟩
  · calc upToNewIDs σ ((flight c σ xs).run svc.exec sched).state
        = upToNewIDs σ ((flight c σ xs).serial svc.exec order).state := hstate
      _ = upToNewIDs σ (serveAll c svc σ (order.map xs)) := by
          rw [serial_state svc hnodup fun i _ => rfl]
          rfl
  · rintro before i after rfl
    rw [hprog]
    exact serial_prog hnodup fun j _ => rfl

namespace Sample

/-- Ann removes her preset while Bob stores one of another name. -/
def removeAndStoreTall : Bool → Inquiry
  | false => ⟨.remove, ann⟩
  | true => ⟨.store, request "bob" "team" "tall"⟩

end Sample

/-- Ann's removal and Bob's store of another preset may be interleaved. -/
theorem apart_requests_commute_ann_bob :
    upToNewIDs (Sample.after [⟨.store, Sample.ann⟩])
        ((flight Sample.context (Sample.after [⟨.store, Sample.ann⟩])
          Sample.removeAndStoreTall).run Service.inKeyOrder.exec [true, false, true, false]).state =
      upToNewIDs (Sample.after [⟨.store, Sample.ann⟩])
        (serveAll Sample.context .inKeyOrder (Sample.after [⟨.store, Sample.ann⟩])
          [⟨.remove, Sample.ann⟩, ⟨.store, Sample.request "bob" "team" "tall"⟩]) := by
  refine (apart_requests_commute Sample.context .inKeyOrder _ (Sample.reachable_after _)
    Sample.removeAndStoreTall ?_ ?_ [true, false, true, false] ?_ [false, true] (by decide)
    (by decide)).1
  · intro i
    cases i with
    | false => exact .inr rfl
    | true => exact .inl rfl
  · intro i j hij
    unfold Apart
    cases i <;> cases j <;> first | exact absurd rfl hij | decide
  · intro i
    cases i with
    | false => exact ⟨done {} Sample.ann, rfl⟩
    | true => exact ⟨done {} (Sample.request "bob" "team" "tall"), rfl⟩

end PluginsDatastore
