import PluginsDatastore.DataStore.StoreAnswer

/-!
# `getShareIds` when its query fails

The only way out of the loop of `getShareIds` is `Done`. An iterator whose query
has failed does not yield it: the error that ended the iteration is yielded on
every later call of `Next`, and each time the loop takes one more element of its
slice for it. So the loop runs off the end of the slice, whatever its length and
wherever the query failed (`shareIdsLoop_of_final_ne`), and `getShareIds` answers
no failure of its query with an error (`not_handlesFailure`).
-/

namespace PluginsDatastore

open Calls

variable {svc : Service} {σ σ' : Store} {w : ResponseWriter} {r : Request} {resp : Served}
  {res : Replies EntityProto}

/-- An iteration that ends in an error does not yield `Done`, and goes on to end in
that error. -/
theorem Iterator.nextInto_of_final_ne {t : Iterator EntityProto} (h : t.final ≠ .done)
    (dst : SharedPreset) :
    ∃ preset err t', t.nextInto SharedPreset.load dst = ((preset, err), t') ∧
      err ≠ some .done ∧ t'.final = t.final := by
  cases hres : t.results with
  | nil =>
    -- the error itself
    obtain ⟨t', hnext, -, hfin⟩ := next_of_results_nil hres
    refine ⟨dst, some t.final, t', ?_, ?_, hfin⟩
    · rw [nextInto, hnext]
    · rwa [ne_eq, Option.some.injEq]
  | cons e es =>
    -- a result, which loads or does not
    obtain ⟨t', hnext, -, hfin⟩ := next_of_results_cons hres
    refine ⟨(SharedPreset.load e.2).1, (SharedPreset.load e.2).2, t', ?_,
      SharedPreset.load_ne_done e.2, hfin⟩
    rw [nextInto, hnext]

/-- **The loop of `getShareIds` over an iteration that fails** leaves its slice. -/
theorem shareIdsLoop_of_final_ne {t : Iterator EntityProto} (h : t.final ≠ .done)
    (shareIds : List GoString) (i : ℕ) :
    shareIdsLoop t shareIds i = .error .indexOutOfRange := by
  -- by induction on the elements left, one of which every round takes
  obtain ⟨m, hm⟩ : ∃ m, shareIds.length - i = m := ⟨_, rfl⟩
  induction m generalizing t shareIds i with
  | zero =>
    obtain ⟨preset, err, t', hnext, hne, -⟩ := Iterator.nextInto_of_final_ne h .zero
    have hi : ¬ i < shareIds.length := by omega
    rw [shareIdsLoop, hnext]
    simp only [if_neg hne, if_neg hi]
  | succ m ih =>
    obtain ⟨preset, err, t', hnext, hne, hfin⟩ := Iterator.nextInto_of_final_ne h .zero
    have hi : i < shareIds.length := by omega
    have hleft : (shareIds.set i preset.shareId).length - (i + 1) = m := by
      rw [List.length_set]
      omega
    rw [shareIdsLoop, hnext]
    simp only [if_neg hne, if_pos hi]
    exact ih (by rwa [hfin]) _ _ hleft

theorem listed_of_final_ne (count : ℕ) (h : res.final ≠ .done) :
    listed w r count res = .error .indexOutOfRange := by
  rw [listed, shareIdsLoop_of_final_ne (by rwa [Iterator.final_receive])]

/-! ### Runs with a query that fails -/

/-- The answers to the query of `getShareIds` in which it fails: after any number of
its results, by an error that is not `Done`. -/
structure FailingReplies (svc : Service) (σ : Store) (res : Replies EntityProto) : Prop where
  results : res.results <+: svc.results distinctShareIds σ
  final : res.final ≠ .done

/-- A count that succeeds, and a query that is answered by `res`. -/
def AnsweredBy (res : Replies EntityProto) : (call : Call) → call.Reply → Prop
  | .count _, reply => ∃ n, reply = .ok n
  | .runQuery _, reply => reply = res
  | _, _ => True

/-- The service when its counts succeed and it answers queries by `res`. -/
def ExecAnswering (svc : Service) (res : Replies EntityProto) (σ : Store) (call : Call)
    (reply : call.Reply) (σ' : Store) : Prop :=
  svc.Exec σ call reply σ' ∧ AnsweredBy res call reply

/-- **What `getShareIds` should make of the answers `res` to its query**: no panic and
no list, but an error. -/
def HandlesFailure (svc : Service) (σ : Store) (r : Request) (res : Replies EntityProto) : Prop :=
  ∀ resp σ', (getShareIds {} r).Runs (ExecAnswering svc res) σ resp σ' → IsHttpError resp

/-- With a query that fails, `getShareIds` has one run, and it ends in a panic. -/
theorem getShareIds_runs_iff (h : FailingReplies svc σ res) :
    (getShareIds w r).Runs (ExecAnswering svc res) σ resp σ' ↔
      resp = .error .indexOutOfRange ∧ σ' = σ := by
  refine ⟨?_, ?_⟩
  · intro hruns
    obtain ⟨hsame, ⟨err, ⟨-, n, hcounted⟩, -⟩ | ⟨n, res', -, ⟨-, hreply⟩, rfl⟩⟩ :=
      getShareIds_inv (fun _ _ _ _ h => h.1) hruns
    · -- the count does not fail
      exact absurd hcounted (by simp)
    · obtain rfl : res' = res := hreply
      exact ⟨listed_of_final_ne n h.final, hsame⟩
  · intro hpanic
    obtain ⟨rfl, rfl⟩ := hpanic
    rw [getShareIds_eq, Prog.runs_call_iff]
    -- the count of the query is answered, as it has no ancestor
    have hcount : svc.Exec σ' (.count distinctShareIds)
        (.ok (svc.results distinctShareIds σ').length) σ' := by
      have hok := @Service.Exec.ok svc σ' (.count distinctShareIds)
      rwa [Service.exec_count rfl] at hok
    refine ⟨_, σ', ⟨hcount, _, rfl⟩, Prog.runs_call_iff.mpr ?_⟩
    refine ⟨res, σ', ⟨.queryFails σ' _ res h.results h.final, rfl⟩, ?_⟩
    rw [Prog.runs_ret_iff, listed_of_final_ne _ h.final]
    exact ⟨rfl, rfl⟩

/-- A panic is not an error that is answered. -/
theorem FailingReplies.not_handlesFailure (h : FailingReplies svc σ res) :
    ¬ HandlesFailure svc σ r res := by
  intro hhandles
  obtain ⟨w, hok, -⟩ := hhandles _ _ ((getShareIds_runs_iff h).mpr ⟨rfl, rfl⟩)
  exact absurd hok (by simp)

/-- **`getShareIds` handles no failure of its query.** For every stored state and
every request, and wherever the query fails: it does not answer an error, but panics
on an index outside its slice. -/
theorem getShareIds_handles_no_failure (svc : Service) (σ : Store) (r : Request)
    (res : Replies EntityProto) (h : FailingReplies svc σ res) :
    ¬ HandlesFailure svc σ r res ∧
    ∀ resp σ', (getShareIds {} r).Runs (ExecAnswering svc res) σ resp σ' ↔
      resp = .error .indexOutOfRange ∧ σ' = σ :=
  ⟨h.not_handlesFailure, fun _ _ => getShareIds_runs_iff h⟩

namespace Sample

/-- The error of a call that took too long. -/
def timeout : Error := .new "datastore: timeout"

/-- With Ann's preset stored, answers that fail after its share id was yielded. -/
def yieldedThenFailed : Replies EntityProto :=
  .more (Service.inKeyOrder.results distinctShareIds (after [⟨.store, ann⟩])) (.fail timeout)

theorem failing_yieldedThenFailed :
    FailingReplies .inKeyOrder (after [⟨.store, ann⟩]) yieldedThenFailed where
  results := by rw [yieldedThenFailed, Replies.results, Replies.results, List.append_nil]
  final := by simp [yieldedThenFailed, Replies.final, timeout]

end Sample

/-- With Ann's preset stored, the query yields her share id and then fails. -/
theorem getShareIds_handles_no_failure_yielded :
    ¬ HandlesFailure .inKeyOrder (Sample.after [⟨.store, Sample.ann⟩]) Sample.ann
        Sample.yieldedThenFailed ∧
      ∀ resp σ', (getShareIds {} Sample.ann).Runs
        (ExecAnswering .inKeyOrder Sample.yieldedThenFailed)
          (Sample.after [⟨.store, Sample.ann⟩]) resp σ' ↔
        resp = .error .indexOutOfRange ∧ σ' = Sample.after [⟨.store, Sample.ann⟩] :=
  getShareIds_handles_no_failure .inKeyOrder _ Sample.ann _ Sample.failing_yieldedThenFailed

/-- **A failed iteration.** With Ann's preset stored, the query yields her share id and
then fails. The slice of one element is full, and the error is put next to it. -/
theorem getShareIds_panics_on_failure :
    FailingReplies .inKeyOrder (Sample.after [⟨.store, Sample.ann⟩]) Sample.yieldedThenFailed ∧
      Sample.yieldedThenFailed.results.length = 1 ∧
      ¬ HandlesFailure .inKeyOrder (Sample.after [⟨.store, Sample.ann⟩]) Sample.bob
        Sample.yieldedThenFailed :=
  ⟨Sample.failing_yieldedThenFailed, by decide +kernel,
    Sample.failing_yieldedThenFailed.not_handlesFailure⟩

end PluginsDatastore
