import PluginsDatastore.DataStore.Contents

/-!
# What the answer of `storePreset` tells

`storePreset` answers a refusal as it answers success. An answer without an error
therefore leaves two possibilities, which `storePreset_answer` separates: the
preset is stored, or the pair of share id and name is taken, and not by the owner
of the request, and nothing has changed. It is about the runs in which the counts
of the check succeed; the write may fail.
-/

namespace PluginsDatastore

open Calls

variable {c : Context} {svc : Service} {σ σ' : Store} {w : ResponseWriter} {r : Request}
  {resp : Served}

/-- The answer is an HTTP error. -/
def IsHttpError (resp : Served) : Prop :=
  ∃ w, resp = .ok w ∧ w.status = some statusInternalServerError

theorem isHttpError_failed (err : Error) : IsHttpError (failed {} err) := ⟨_, rfl, rfl⟩

theorem not_isHttpError_done : ¬ IsHttpError (done {} r) := by
  intro h
  obtain ⟨w, hok, hstatus⟩ := h
  rw [done, Except.ok.injEq] at hok
  rw [← hok, status_writeJson] at hstatus
  exact absurd hstatus (by simp)

/-- An entity with the submitted fields is stored below the share id. -/
def IsStored (c : Context) (σ : Store) (r : Request) : Prop :=
  ∃ k, k.under (sharedPresetsKey c (submitted r).shareId) = true ∧ Has σ k (submitted r)

theorem isStored_written (hs : (submitted r).shareId ≠ "") :
    IsStored c (written c svc r σ) r :=
  ⟨_, (filed_writtenKey hs).under_iff.mpr rfl, has_submitted⟩

/-- **A refusal is answered as success is.** Ann has a preset of the name, and Bob
is answered without an error although nothing of his is stored. -/
theorem refusal_answers_success :
    ¬ IsHttpError (serve Sample.context .inKeyOrder (Sample.after [⟨.store, Sample.ann⟩])
      ⟨.store, Sample.bob⟩).1 ∧
    ¬ IsStored Sample.context (serve Sample.context .inKeyOrder
      (Sample.after [⟨.store, Sample.ann⟩]) ⟨.store, Sample.bob⟩).2 Sample.bob := by
  have hresp : (serve Sample.context .inKeyOrder (Sample.after [⟨.store, Sample.ann⟩])
      ⟨.store, Sample.bob⟩).1 = done {} Sample.bob := by rfl
  have hnone : submitted Sample.bob ∉ presets (serve Sample.context .inKeyOrder
      (Sample.after [⟨.store, Sample.ann⟩]) ⟨.store, Sample.bob⟩).2 := by decide +kernel
  have hσ := (Sample.reachable_after [⟨.store, Sample.ann⟩]).serve ⟨.store, Sample.bob⟩
  refine ⟨?_, ?_⟩
  · rw [hresp]
    exact not_isHttpError_done
  · intro h
    obtain ⟨k, -, hk⟩ := h
    exact hnone ((mem_presets hσ.wellKeyed).mpr ⟨k, hk⟩)

/-- A count that is not an error. Other calls may fail. -/
def Counted : (call : Call) → call.Reply → Prop
  | .count _, reply => ∃ n, reply = .ok n
  | _, _ => True

/-- The service that may fail, but for its counts. -/
def ExecCounted (svc : Service) (σ : Store) (call : Call) (reply : call.Reply) (σ' : Store) :
    Prop :=
  svc.Exec σ call reply σ' ∧ Counted call reply

/-- A count that succeeds is the number of the entities found. -/
theorem execCounted_inv {q : Query} (hq : q.distinct = false) {reply : Except Error ℕ}
    (h : ExecCounted svc σ (.count q) reply σ') :
    σ' = σ ∧ reply = .ok (svc.found q σ).length := by
  obtain ⟨hexec, m, hm⟩ := h
  exact ⟨exec_count_state_eq hexec, by rw [hm, exec_count_ok hq hexec hm]⟩

/-- **A refusal by counts that succeeded**: the pair is taken, and not by the owner
of the request. -/
theorem storeCheck_refused (hσ : WellKeyed c σ)
    (h : (storeCheck c r).Runs (ExecCounted svc) σ false σ') :
    Taken σ (submitted r).shareId (submitted r).presetName ∧
      ¬ Holds σ (submitted r).shareId (submitted r).presetName (submitted r).ownerId := by
  rw [storeCheck, checkIsNewOrOwner_eq, Prog.runs_call_iff] at h
  obtain ⟨r₁, σ₁, hcount₁, hrest⟩ := h
  obtain ⟨rfl, rfl⟩ := execCounted_inv rfl hcount₁
  by_cases hfree : Taken σ₁ (submitted r).shareId (submitted r).presetName
  · -- the first count is not zero, so the second has refused
    have h₁ : (svc.found (named c (submitted r).shareId (submitted r).presetName) σ₁).length ≠ 0 :=
      fun hzero => (hσ.found_named_eq_zero.mp hzero) hfree
    rw [absent_ok, decide_eq_false h₁, if_neg Bool.false_ne_true, Prog.runs_call_iff] at hrest
    obtain ⟨r₂, σ₂, hcount₂, hret⟩ := hrest
    obtain ⟨rfl, rfl⟩ := execCounted_inv rfl hcount₂
    rw [Prog.runs_ret_iff, present_ok] at hret
    have h₂ := not_not.mp (of_decide_eq_false hret.1.symm)
    exact ⟨hfree, hσ.found_ownedNamed_eq_zero.mp h₂⟩
  · -- the first count grants a request for a free pair
    have h₁ : (svc.found (named c (submitted r).shareId (submitted r).presetName) σ₁).length = 0 :=
      hσ.found_named_eq_zero.mpr hfree
    rw [absent_ok, decide_eq_true h₁, if_pos rfl, Prog.runs_ret_iff] at hrest
    exact absurd hrest.1 Bool.false_ne_true

/-- On a service that answers every call, the counts of a request with a share id
succeed. -/
theorem runs_execCounted (c : Context) (svc : Service) (σ : Store)
    (hs : (submitted r).shareId ≠ "") :
    (storePreset c {} r).Runs (ExecCounted svc) σ (serve c svc σ ⟨.store, r⟩).1
      (serve c svc σ ⟨.store, r⟩).2 := by
  -- a count below a share id is not rejected
  have hcount : ∀ q : Query, q.ancestor = sharedPresetsKey c (submitted r).shareId →
      q.distinct = false → ∀ τ, ExecCounted svc τ (.count q) (svc.exec τ (.count q)).1
        (svc.exec τ (.count q)).2 := by
    intro q hq hdistinct τ
    refine ⟨.ok τ _, ?_⟩
    rw [exec_count_below hq hdistinct hs]
    exact ⟨_, rfl⟩
  have hgranted : ∀ τ, (storeGranted c {} r).Runs (ExecCounted svc) τ
      ((storeGranted c {} r).eval svc.exec τ).1 ((storeGranted c {} r).eval svc.exec τ).2 := by
    intro τ
    rw [storeGranted, if_neg hs]
    exact .call ⟨.ok τ _, trivial⟩ (.ret _ _)
  show (storePreset c {} r).Runs (ExecCounted svc) σ ((storePreset c {} r).eval svc.exec σ).1
    ((storePreset c {} r).eval svc.exec σ).2
  rw [storePreset_eq, Prog.eval_call]
  refine .call (hcount _ rfl rfl σ) ?_
  split
  · exact hgranted _
  · rw [storeSecond, Prog.eval_call]
    refine .call (hcount _ rfl rfl _) ?_
    split
    · exact hgranted _
    · exact .ret _ _

/-- **The answer of `storePreset`.** In every reachable store, and whether or not the
write fails: where the counts of the check succeed and the answer is not an HTTP
error, the preset is stored with all its fields below its share id, or the pair of
share id and name is taken, and not by the owner of the request, and nothing has
changed. -/
theorem storePreset_answer (c : Context) (svc : Service) (σ : Store) (hσ : Reachable c svc σ)
    (r : Request) (resp : Served) (σ' : Store)
    (h : (storePreset c {} r).Runs (ExecCounted svc) σ resp σ') (hok : ¬ IsHttpError resp) :
    IsStored c σ' r ∨
      (σ' = σ ∧ Taken σ (submitted r).shareId (submitted r).presetName ∧
        ¬ Holds σ (submitted r).shareId (submitted r).presetName (submitted r).ownerId) := by
  rw [storePreset_bind, Prog.runs_bind_iff] at h
  obtain ⟨granted, σ₁, hcheck, hrest⟩ := h
  obtain ⟨rfl, -⟩ := storeCheck_inv hσ.wellKeyed (hcheck.mono fun _ _ _ _ h => h.1)
  cases granted with
  | false =>
    rw [if_neg Bool.false_ne_true, Prog.runs_ret_iff] at hrest
    obtain ⟨rfl, rfl⟩ := hrest
    exact .inr ⟨rfl, storeCheck_refused hσ.wellKeyed hcheck⟩
  | true =>
    -- a granted request answers an error unless its write succeeded
    cases storeGranted_outcome (hrest.mono fun _ _ _ _ h => h.1) with
    | invalid => exact absurd (isHttpError_failed _) hok
    | lost => exact absurd (isHttpError_failed _) hok
    | applied => exact absurd (isHttpError_failed _) hok
    | stored hs => exact .inl (isStored_written hs)

/-- Ann is answered without an error, and her preset is stored. Bob is answered
alike, and the pair is Ann's. -/
theorem storePreset_answer_ann :
    IsStored Sample.context (Sample.after [⟨.store, Sample.ann⟩]) Sample.ann ∧
      Sample.after [⟨.store, Sample.ann⟩, ⟨.store, Sample.bob⟩] =
        Sample.after [⟨.store, Sample.ann⟩] ∧
      Taken (Sample.after [⟨.store, Sample.ann⟩]) "team" "wide" ∧
      ¬ Holds (Sample.after [⟨.store, Sample.ann⟩]) "team" "wide" "bob" := by
  have hann := storePreset_answer Sample.context .inKeyOrder KeyedStore.empty Reachable.empty
    Sample.ann (done {} Sample.ann) _
    (runs_execCounted Sample.context .inKeyOrder KeyedStore.empty (by decide))
    not_isHttpError_done
  have hbob := storePreset_answer Sample.context .inKeyOrder _
    (Sample.reachable_after [⟨.store, Sample.ann⟩]) Sample.bob (done {} Sample.bob) _
    (runs_execCounted Sample.context .inKeyOrder _ (by decide)) not_isHttpError_done
  refine ⟨hann.resolve_right ?_, hbob.resolve_left ?_⟩
  · -- the store has changed
    rintro ⟨hsame, -⟩
    have hget := congrArg (KeyedStore.get · (presetKey Sample.context "team" "wide")) hsame
    exact absurd hget (by decide)
  · -- and Bob's preset is not in it
    rintro ⟨k, -, hk⟩
    have hσ := Sample.reachable_after [⟨.store, Sample.ann⟩, ⟨.store, Sample.bob⟩]
    have hnone : submitted Sample.bob ∉
        presets (Sample.after [⟨.store, Sample.ann⟩, ⟨.store, Sample.bob⟩]) := by
      decide +kernel
    exact hnone ((mem_presets hσ.wellKeyed).mpr ⟨k, hk⟩)

end PluginsDatastore
