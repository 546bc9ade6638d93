import PluginsDatastore.Appengine.Records

/-!
# The calls of the model are what the protocol comes to

`Call.runQuery` and `Call.count` stand for whole queries: one step of the service,
answered from the store as it is at that moment. The program makes a `RunQuery` call
and `Next` calls instead, and other clients may write in between.

Over a service that keeps to the protocol the two are the same to the client. To every
run of a query there is an outcome of the one step, by the service that may fail, after
which the model's iterator answers every number of calls of `next` as the program's
iterator does (`runQuery_refines`), and `Query.Count` gives what the one step answers
(`count_refines`). The step fails only with one of the errors that the service answers the
program with. The entities travel with their keys as references, which the stored keys
survive.
-/

namespace PluginsDatastore

open Calls

variable {svc : Service} {σ : Store} {q : Query} {appID : GoString}

/-- What the model's iterator yields. -/
theorem Iterator.gives {α : Type} (t : Iterator α) :
    Gives Iterator.next t (t.results.map .ok) (.error t.final) := by
  generalize hres : t.results = xs
  induction xs generalizing t with
  | nil =>
    refine gives_nil (P := fun t' => t'.results = [] ∧ t'.final = t.final) (fun t' h => ?_)
      ⟨hres, rfl⟩
    obtain ⟨t'', hnext, hres', hfin'⟩ := next_of_results_nil h.1
    rw [hnext, h.2]
    exact ⟨rfl, hres', hfin'.trans h.2⟩
  | cons x xs ih =>
    obtain ⟨t', hnext, hres', hfin'⟩ := next_of_results_cons hres
    have hrest := ih t' hres'
    rw [hfin'] at hrest
    exact Gives.cons hnext hrest

theorem Replies.gives {α : Type} (res : Replies α) :
    Gives Iterator.next (Iterator.receive res) (res.results.map .ok) (.error res.final) := by
  have hgives := Iterator.gives (Iterator.receive res)
  rwa [Iterator.results_receive, Iterator.final_receive] at hgives

/-- The answers of the model's iterator, as the program's iterator gives them. -/
def yielded (n : ℕ) (res : Replies EntityProto) : List (Except NextError EntityProto) :=
  (outcomes Iterator.next n (Iterator.receive res)).map (Except.mapError NextError.err)

/-- An iterator of the program that gives the same as the model's. -/
theorem outcomes_eq_yielded {γ : Type} {t : RpcIterator γ} {res : Replies EntityProto}
    (h : Gives RpcIterator.next t (res.results.map .ok) (.error (.err res.final))) (n : ℕ) :
    outcomes RpcIterator.next n t = yielded n res :=
  h.outcomes_eq_map res.gives (by rw [List.map_map]; rfl) rfl n

/-! ### One step of the service -/

section

variable {γ : Type} {E : Error → Prop} {At : γ → ℕ → Prop}
  {server : QueryProto γ → Answers RawEntity γ}

theorem Query.window_unbounded (rs : List RawEntity) :
    (q.unbounded : BoundedQuery γ).window rs 0 = rs := by
  have hneg : ¬ (0 : Int32) ≤ -1 := by decide
  have hleft : (q.unbounded : BoundedQuery γ).left = none := if_neg hneg
  rw [BoundedQuery.window, hleft]
  exact List.drop_zero

theorem Service.exec_runQuery_of_not_rejects (hrejects : svc.rejects q = none) :
    svc.exec σ (.runQuery q) = (svc.page (svc.results q σ), σ) := by
  simp only [Service.exec, hrejects]

theorem Service.exec_count_of_not_rejects (hrejects : svc.rejects q = none) :
    svc.exec σ (.count q) = (.ok (svc.results q σ).length, σ) := by
  simp only [Service.exec, hrejects]

/-- A query by the protocol yields what the model's service answers, or a first part of it
and then an error of the service. -/
theorem run_yielded (hq : q.Valid) (hrejects : svc.rejects q = none) (hσ : σ.Sound)
    (h : ServesQuery E At ((svc.results q σ).map (RawEntity.of appID)) q none appID server) :
    (∀ n, outcomes RpcIterator.next n (q.unbounded.run server appID) =
        yielded n (svc.exec σ (.runQuery q)).1) ∨
      ∃ xs err, E err ∧ xs <+: svc.results q σ ∧
        ∀ n, outcomes RpcIterator.next n (q.unbounded.run server appID) =
          yielded n (.more xs (.fail err)) := by
  have hrun := run_spec (q := q.unbounded) hq le_rfl (rfl : Starts At none 0) h
  rw [Query.window_unbounded, hσ.map_read] at hrun
  rcases hrun with hgives | ⟨ys, err, herr, hys, hgives⟩
  · -- the service has answered every call
    refine .inl (outcomes_eq_yielded ?_)
    rwa [Service.exec_runQuery_of_not_rejects hrejects, svc.page_results, svc.page_final]
  · -- what has arrived before it failed comes first of the results
    obtain ⟨xs, hxs, rfl⟩ : ∃ xs, xs <+: svc.results q σ ∧ ys = xs.map .ok := by
      refine ⟨(svc.results q σ).take ys.length, List.take_prefix _ _, ?_⟩
      rw [List.map_take]
      exact List.prefix_iff_eq_take.mp hys
    refine .inr ⟨xs, err, herr, hxs, outcomes_eq_yielded ?_⟩
    have hresults : (Replies.more xs (.fail err)).results = xs := List.append_nil xs
    rwa [hresults]

/-- **A query by the protocol is one step of the model's service**, which answers it from
the store as it was at the `RunQuery` call. The step succeeds, or it fails with an error of
the service, after a first part of the results. -/
theorem runQuery_refines (hq : q.Valid) (hrejects : svc.rejects q = none) (hσ : σ.Sound)
    (hE : ∀ err, E err → err ≠ .done)
    (h : ServesQuery E At ((svc.results q σ).map (RawEntity.of appID)) q none appID server) :
    ∃ res, svc.Exec σ (.runQuery q) res σ ∧
      (res = (svc.exec σ (.runQuery q)).1 ∨
        ∃ xs err, E err ∧ xs <+: svc.results q σ ∧ res = .more xs (.fail err)) ∧
      ∀ n, outcomes RpcIterator.next n (q.unbounded.run server appID) = yielded n res := by
  rcases run_yielded hq hrejects hσ h with hall | ⟨xs, err, herr, hxs, hpart⟩
  · -- the service has not failed
    have hok : svc.Exec σ (.runQuery q) _ _ := .ok σ (.runQuery q)
    rw [svc.exec_runQuery_state] at hok
    exact ⟨_, hok, .inl rfl, hall⟩
  · -- it has failed after a first part of the results
    refine ⟨.more xs (.fail err), .queryFails σ q _ ?_ (hE err herr),
      .inr ⟨xs, err, herr, hxs, rfl⟩, hpart⟩
    show xs ++ [] <+: _
    rwa [List.append_nil]

/-- The development server over the results of the model's service serves its queries. -/
theorem Service.Sorts.serves {κ : Type} [LinearOrder κ]
    {results : Store → Query → List (κ × RawEntity)} {s : QueryStub RawEntity κ}
    {meanwhile : List (List (StubCall κ))} (hsorts : svc.Sorts appID results)
    (h : s.Attends E meanwhile (svc.results q s.store).length) :
    ServesQuery E (StandsAt (results s.store q))
      ((svc.results q s.store).map (RawEntity.of appID)) q none appID
      (s.serve svc results meanwhile) := by
  have hlen := congrArg List.length (hsorts.entities s.store q)
  rw [List.length_map, List.length_map] at hlen
  have hserves := @QueryStub.serves _ _ _ svc results s E q none meanwhile appID
    (hsorts.sorted s.store q) (by rw [hlen]; exact h)
  have htake : (results s.store q).take (endPosition (results s.store q) none) =
      results s.store q := List.take_length
  rwa [htake, hsorts.entities] at hserves

theorem everyPreset_valid : everyPreset.Valid := newQuery_valid _

/-- The queries for all presets among `n`, and their counts. -/
theorem length_inKeyOrder_stocked (hq : q = everyPreset ∨ q = everyPreset.forCount) (n : ℕ) :
    (Service.inKeyOrder.results q (stocked n)).length = n := by
  rcases hq with rfl | rfl
  · exact length_results_stocked _ rfl (fun _ => rfl) n
  · exact length_results_stocked _ rfl (fun _ => rfl) n

theorem stockedStub_serves {n k : ℕ} (hq : q = everyPreset ∨ q = everyPreset.forCount)
    (h : E deadlineExceeded ∨ n ≤ k + 2) :
    ServesQuery E (StandsAt (keyRecords "app" (stocked n) q))
      ((Service.inKeyOrder.results q (stocked n)).map (RawEntity.of "app")) q none "app"
      ((stockedStub n).serve .inKeyOrder (keyRecords "app") (busy k)) := by
  have hattends : (stockedStub n).Attends E (busy k)
      (Service.inKeyOrder.results q (stockedStub n).store).length := by
    rw [show (stockedStub n).store = stocked n from rfl, length_inKeyOrder_stocked hq]
    exact stockedStub_attends h n
  exact @Service.Sorts.serves .inKeyOrder q "app" E _ _ (keyRecords "app") (stockedStub n) (busy k)
    (inKeyOrder_sorts "app") hattends

/-- Of 70 presets three batches arrive while others write, and the fourth does not. -/
theorem runQuery_refines_stocked :
    ∃ res, Service.inKeyOrder.Exec (stocked 70) (.runQuery everyPreset) res (stocked 70) ∧
      (res = (Service.inKeyOrder.exec (stocked 70) (.runQuery everyPreset)).1 ∨
        ∃ xs err, err = deadlineExceeded ∧
          xs <+: Service.inKeyOrder.results everyPreset (stocked 70) ∧
          res = .more xs (.fail err)) ∧
      ∀ n, outcomes RpcIterator.next n (everyPreset.unbounded.run ((stockedStub 70).serve
        .inKeyOrder (keyRecords "app") (busy 0)) "app") = yielded n res :=
  runQuery_refines everyPreset_valid rfl (stocked_sound 70)
    (fun err (h : err = deadlineExceeded) => by rw [h]; decide)
    (stockedStub_serves (.inl rfl) (.inl rfl))

/-- **A count by the protocol is one step of the model's service**, as long as an `int32`
counts the results. The step succeeds, or it fails with an error of the service. -/
theorem count_refines (hq : q.Valid) (hrejects : svc.rejects q.forCount = none)
    (hbound : (svc.results q.forCount σ).length ≤ 2147483647)
    (h : ServesQuery E At ((svc.results q.forCount σ).map (RawEntity.of appID)) q.forCount none
      appID server) :
    ∃ reply, svc.Exec σ (.count q.forCount) reply σ ∧
      (reply = (svc.exec σ (.count q.forCount)).1 ∨ ∃ err, E err ∧ reply = .error err) ∧
      q.unbounded.count server appID = reply.map (fun n : ℕ => (n : ℤ)) := by
  rcases count_spec (q := q.unbounded) hq le_rfl (rfl : Starts At none 0) h with
    ⟨err, herr, hcount⟩ | hcount
  · exact ⟨.error err, .countFails σ _ err, .inr ⟨err, herr, rfl⟩, hcount⟩
  · -- all results are in the window of the query, and an `int32` counts them
    have hok : svc.Exec σ (.count q.forCount) _ _ := .ok σ (.count q.forCount)
    rw [svc.exec_count_state] at hok
    refine ⟨_, hok, .inl rfl, ?_⟩
    rw [hcount, Query.window_unbounded, List.length_map,
      Service.exec_count_of_not_rejects hrejects]
    refine congrArg Except.ok (min_eq_left ?_)
    show ((svc.results q.forCount σ).length : ℤ) ≤ 2147483647 - 0
    omega

/-- A count of 1500 presets takes two calls, between which others write. -/
theorem count_refines_stocked :
    ∃ reply, Service.inKeyOrder.Exec (stocked 1500) (.count everyPreset.forCount) reply
        (stocked 1500) ∧
      (reply = (Service.inKeyOrder.exec (stocked 1500) (.count everyPreset.forCount)).1 ∨
        ∃ err, False ∧ reply = .error err) ∧
      everyPreset.unbounded.count (stockedServer 1500) "app" =
        reply.map (fun n : ℕ => (n : ℤ)) :=
  count_refines everyPreset_valid rfl
    (le_of_eq_of_le (length_inKeyOrder_stocked (.inr rfl) 1500) (by decide))
    (stockedStub_serves (.inr rfl) (.inr (Nat.le_add_right 1500 2)))

end

end PluginsDatastore
