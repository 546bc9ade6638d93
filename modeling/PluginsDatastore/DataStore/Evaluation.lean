import PluginsDatastore.DataStore.Runs

/-!
# The handlers on a service that answers every call

`serve` is a function, and this module computes it on well-keyed stores: what
each handler answers and which store it leaves. A request with a share id gets
what its handler is for. Without one, the queries go below a key that names no
entity, which the service may reject, and nothing is stored there either way, so
the store stays as it is.
-/

namespace PluginsDatastore

open Calls

variable {c : Context} {svc : Service} {σ : Store} {w : ResponseWriter} {r : Request}
  {s n o : GoString}

/-! ### Reading results -/

theorem Slice.foldl_append {α : Type} (l d : List α) :
    l.foldl Slice.append (.of d) = .of (d ++ l) := by
  induction l generalizing d with
  | nil => rw [List.foldl_nil, List.append_nil]
  | cons x xs ih => rw [List.foldl_cons, Slice.append_of, ih, List.append_assoc,
      List.singleton_append]

/-- What `loadPreset` answers when all results load. -/
theorem loaded_eq {res : Replies EntityProto}
    (hload : ∀ e ∈ res.results, (SharedPreset.load e.2).2 = none) (hdone : res.final = .done) :
    loaded w r res = .ok (writeJson w r
      (.presets (.of (res.results.map fun e => (SharedPreset.load e.2).1)))) := by
  rw [loaded, Iterator.getAllLoop_load (by rw [Iterator.results_receive]; exact Nat.lt_succ_self _)
    (by rw [Iterator.results_receive]; exact hload), Iterator.results_receive,
    Iterator.final_receive, hdone, Slice.foldl_append]
  rfl

/-- What `loadPreset` answers when its query fails: what was loaded is dropped. -/
theorem loaded_of_final_ne {res : Replies EntityProto}
    (hload : ∀ e ∈ res.results, (SharedPreset.load e.2).2 = none) (h : res.final ≠ .done) :
    loaded w r res = failed w res.final := by
  rw [loaded, Iterator.getAllLoop_load (by rw [Iterator.results_receive]; exact Nat.lt_succ_self _)
    (by rw [Iterator.results_receive]; exact hload), Iterator.final_receive, Iterator.endError,
    if_neg h]

theorem SharedPreset.load_ne_done (props : List Property) : (load props).2 ≠ some .done := by
  -- whatever the loop has accumulated so far, it is not `Done`
  unfold load
  generalize hacc : (zero, (none : Option Error)) = acc
  have hne : acc.2 ≠ some .done := by
    rw [← hacc]
    simp
  clear hacc
  induction props generalizing acc with
  | nil => exact hne
  | cons prop props ih =>
    refine ih (loadProperty acc prop) ?_
    unfold loadProperty
    split
    · exact hne
    · simp [errFieldMismatch]

/-- **The loop of `getShareIds`** when the iteration ends in `Done`: from the
index `i` on, the elements become the share ids of the results, and the rest stay
as they are; a result for which there is no element left is a panic. -/
theorem shareIdsLoop_eq {t : Iterator EntityProto} {shareIds : List GoString} {i : ℕ}
    (hdone : t.final = .done) (hi : i ≤ shareIds.length) :
    shareIdsLoop t shareIds i =
      if i + t.results.length ≤ shareIds.length then
        .ok (shareIds.take i ++ t.results.map (fun e => (SharedPreset.load e.2).1.shareId)
          ++ shareIds.drop (i + t.results.length))
      else .error .indexOutOfRange := by
  -- by induction on the results to come, as the index runs through the slice
  obtain ⟨rs, hrs⟩ : ∃ rs, t.results = rs := ⟨_, rfl⟩
  induction rs generalizing t shareIds i with
  | nil =>
    obtain ⟨t', hnext, -, -⟩ := Iterator.next_of_results_nil hrs
    rw [shareIdsLoop, Iterator.nextInto, hnext, hdone, hrs]
    simp [hi]
  | cons e rs ih =>
    obtain ⟨t', hnext, hres', hfin'⟩ := Iterator.next_of_results_cons hrs
    have hne := SharedPreset.load_ne_done e.2
    rw [shareIdsLoop, Iterator.nextInto, hnext]
    simp only [hne, if_false]
    by_cases hlt : i < shareIds.length
    · -- the element at `i` is filled
      have hrec := @ih t' (shareIds.set i (SharedPreset.load e.2).1.shareId) (i + 1)
        (hfin'.trans hdone) (by rw [List.length_set]; exact hlt) hres'
      rw [if_pos hlt, hrec, hres', hrs, List.length_set, List.length_cons,
        show i + 1 + rs.length = i + (rs.length + 1) by omega]
      have htake : (shareIds.set i (SharedPreset.load e.2).1.shareId).take (i + 1) =
          shareIds.take i ++ [(SharedPreset.load e.2).1.shareId] := by
        rw [List.set_eq_take_append_cons_drop, if_pos hlt, List.take_append, List.length_take,
          Nat.min_eq_left hi]
        simp
      have hdrop : (shareIds.set i (SharedPreset.load e.2).1.shareId).drop (i + (rs.length + 1)) =
          shareIds.drop (i + (rs.length + 1)) :=
        List.drop_set_of_lt (by omega)
      rw [htake, hdrop, List.map_cons, List.append_assoc (shareIds.take i), List.singleton_append]
    · -- the index is past the end
      rw [if_neg hlt, hrs, List.length_cons, if_neg (by omega)]

/-! ### Below a share id and below none -/

theorem incomplete_sharedPresetsKey : (sharedPresetsKey c s).incomplete = decide (s = "") := by
  simp [sharedPresetsKey, newKey, Key.incomplete]

theorem exec_count_below {q : Query} (hq : q.ancestor = sharedPresetsKey c s)
    (hdistinct : q.distinct = false) (hs : s ≠ "") :
    svc.exec σ (.count q) = (.ok (svc.found q σ).length, σ) := by
  rw [Service.exec_count (by rw [hq, incomplete_sharedPresetsKey]; simpa using hs),
    Service.results_of_not_distinct hdistinct]

theorem exec_runQuery_below {q : Query} (hq : q.ancestor = sharedPresetsKey c s)
    (hdistinct : q.distinct = false) (hs : s ≠ "") :
    svc.exec σ (.runQuery q) = (svc.page (svc.found q σ), σ) := by
  rw [Service.exec_runQuery (by rw [hq, incomplete_sharedPresetsKey]; simpa using hs),
    Service.results_of_not_distinct hdistinct]

/-- Nothing is found below the empty share id. -/
theorem WellKeyed.found_noShare (hσ : WellKeyed c σ) {q : Query} (hkind : q.kind = "Preset")
    (hancestor : q.ancestor = sharedPresetsKey c "") (hprojection : q.projection = []) :
    svc.found q σ = [] := by
  rw [List.eq_nil_iff_forall_not_mem]
  intro e he
  obtain ⟨k, props, hget, hres, -⟩ := Service.mem_found.mp he
  obtain ⟨p, rfl, -, hfiled⟩ := hσ.exists_has hget
  exact hfiled.shareId_ne ((hfiled.isResult_iff hkind hancestor hprojection).mp hres).1

/-! ### `storePreset` -/

theorem eval_storeWrite : (storeWrite c w r).eval svc.exec σ = (done w r, written c svc r σ) := rfl

/-- The first count of the check is zero when the pair is free. -/
theorem absent_count (hσ : WellKeyed c σ) (hs : s ≠ "") :
    absent (svc.exec σ (.count (named c s n))).1 = true ↔ ¬ Taken σ s n := by
  rw [exec_count_below rfl rfl hs, absent_ok, decide_eq_true_eq, hσ.found_named_eq_zero]

/-- The second count of the check is not zero when the owner holds the pair. -/
theorem present_count (hσ : WellKeyed c σ) (hs : s ≠ "") :
    present (svc.exec σ (.count (ownedNamed c s o n))).1 = true ↔ Holds σ s n o := by
  rw [exec_count_below rfl rfl hs, present_ok, decide_eq_true_eq, ne_eq,
    hσ.found_ownedNamed_eq_zero, not_not]

/-- The check, computed. -/
theorem eval_storeCheck (hσ : WellKeyed c σ) (hs : (submitted r).shareId ≠ "") :
    ((storeCheck c r).eval svc.exec σ).1 = true ↔ Granted σ r := by
  rw [storeCheck, checkIsNewOrOwner_eq, Prog.eval_call, Service.exec_count_state]
  by_cases hfree : Taken σ (submitted r).shareId (submitted r).presetName
  · -- the second count decides
    rw [if_neg fun h => (absent_count hσ hs).mp h hfree, Prog.eval_call, Prog.eval_ret,
      present_count hσ hs]
    exact ⟨.inr, fun h => h.resolve_left (not_not.mpr hfree)⟩
  · -- the first count grants the request
    rw [if_pos ((absent_count hσ hs).mpr hfree), Prog.eval_ret]
    exact ⟨fun _ => .inl hfree, fun _ => rfl⟩

/-- The check changes nothing. -/
theorem eval_storeCheck_state (c : Context) (r : Request) (σ : Store) :
    ((storeCheck c r).eval svc.exec σ).2 = σ := by
  rw [storeCheck, checkIsNewOrOwner_eq, Prog.eval_call, Service.exec_count_state]
  split
  · rfl
  · rw [Prog.eval_call, Service.exec_count_state]
    rfl

theorem eval_storePreset (c : Context) (w : ResponseWriter) (r : Request) (σ : Store) :
    (storePreset c w r).eval svc.exec σ =
      (if ((storeCheck c r).eval svc.exec σ).1 then storeGranted c w r
        else .ret (done w r)).eval svc.exec σ := by
  rw [storePreset_bind, Prog.eval_bind, eval_storeCheck_state]

/-- A request that the check grants stores its preset. -/
theorem eval_storePreset_granted (hσ : WellKeyed c σ) (hs : (submitted r).shareId ≠ "")
    (h : Granted σ r) : (storePreset c w r).eval svc.exec σ = (done w r, written c svc r σ) := by
  have hcheck : ((storeCheck c r).eval svc.exec σ).1 = true := (eval_storeCheck hσ hs).mpr h
  calc (storePreset c w r).eval svc.exec σ
      = (storeGranted c w r).eval svc.exec σ := by rw [eval_storePreset, hcheck, if_pos rfl]
    _ = (storeWrite c w r).eval svc.exec σ := by rw [storeGranted, if_neg hs]
    _ = (done w r, written c svc r σ) := eval_storeWrite

/-- A request that the check refuses is answered alike and stores nothing. -/
theorem eval_storePreset_refused (hσ : WellKeyed c σ) (hs : (submitted r).shareId ≠ "")
    (h : ¬ Granted σ r) : (storePreset c w r).eval svc.exec σ = (done w r, σ) := by
  have hcheck : ((storeCheck c r).eval svc.exec σ).1 = false := by
    rw [← Bool.not_eq_true, eval_storeCheck hσ hs]
    exact h
  rw [eval_storePreset, hcheck, if_neg Bool.false_ne_true, Prog.eval_ret]

/-- Without a share id, the first count of the check is zero when it is not rejected. -/
theorem absent_count_noShare (hσ : WellKeyed c σ) :
    absent (svc.exec σ (.count (named c "" n))).1 = true ↔ svc.rejects (named c "" n) = none := by
  cases hrejects : svc.rejects (named c "" n) with
  | none =>
    have hres : svc.results (named c "" n) σ = [] :=
      (Service.results_of_not_distinct rfl σ).trans (hσ.found_noShare rfl rfl rfl)
    simp [Service.exec, hrejects, hres]
  | some err => simp [Service.exec, hrejects]

/-- Without a share id, the second count of the check is zero or rejected. -/
theorem present_count_noShare (hσ : WellKeyed c σ) :
    present (svc.exec σ (.count (ownedNamed c "" o n))).1 = false := by
  rcases svc.exec_count_cases σ (ownedNamed c "" o n) with ⟨err, -, hexec⟩ | hexec
  · rw [hexec, present_error]
  · have hres : svc.results (ownedNamed c "" o n) σ = [] :=
      (Service.results_of_not_distinct rfl σ).trans (hσ.found_noShare rfl rfl rfl)
    rw [hexec, hres]
    rfl

/-- Without a share id, the check grants a request exactly when the service runs its
count, and that does not depend on what is stored. -/
theorem eval_storeCheck_noShare (hσ : WellKeyed c σ) (hs : (submitted r).shareId = "") :
    ((storeCheck c r).eval svc.exec σ).1 = true ↔
      svc.rejects (named c (submitted r).shareId (submitted r).presetName) = none := by
  rw [storeCheck, checkIsNewOrOwner_eq, Prog.eval_call, Service.exec_count_state, hs]
  by_cases hrejects : svc.rejects (named c "" (submitted r).presetName) = none
  · rw [if_pos ((absent_count_noShare hσ).mpr hrejects), Prog.eval_ret]
    exact ⟨fun _ => hrejects, fun _ => rfl⟩
  · rw [if_neg fun h => hrejects ((absent_count_noShare hσ).mp h), Prog.eval_call, Prog.eval_ret,
      present_count_noShare hσ]
    exact ⟨fun h => absurd h Bool.false_ne_true, fun h => absurd h hrejects⟩

/-- **The answer of `storePreset`** does not depend on what is stored. -/
theorem eval_storePreset_answer (hσ : WellKeyed c σ) :
    ((storePreset c w r).eval svc.exec σ).1 =
      if (submitted r).shareId = "" ∧
          svc.rejects (named c (submitted r).shareId (submitted r).presetName) = none
        then failed w .invalidKey else done w r := by
  by_cases hs : (submitted r).shareId = ""
  · -- granted or not, nothing is written
    have hcheck := @eval_storeCheck_noShare c svc σ r hσ hs
    rw [eval_storePreset, storeGranted, if_pos hs]
    by_cases hgranted : ((storeCheck c r).eval svc.exec σ).1 = true
    · rw [if_pos hgranted, if_pos ⟨hs, hcheck.mp hgranted⟩, Prog.eval_ret]
    · rw [if_neg hgranted, if_neg fun h => hgranted (hcheck.mpr h.2), Prog.eval_ret]
  · rw [if_neg fun h => hs h.1]
    by_cases hgranted : Granted σ r
    · rw [eval_storePreset_granted hσ hs hgranted]
    · rw [eval_storePreset_refused hσ hs hgranted]

theorem eval_storePreset_noShare (hs : (submitted r).shareId = "") :
    ((storePreset c w r).eval svc.exec σ).2 = σ := by
  rw [eval_storePreset]
  split
  · rw [storeGranted, if_pos hs]
    rfl
  · rfl

/-! ### `removePreset` -/

/-- Deleting the keys of presets. -/
theorem eval_removeDelete {keys : List Key} (hvalid : ∀ k ∈ keys, k.valid = true) :
    (removeDelete w r keys).eval svc.exec σ = (done w r, σ.eraseAll keys) := by
  by_cases hne : keys = []
  · rw [hne, removeDelete_nil, Prog.eval_ret, KeyedStore.eraseAll_nil]
  · rw [removeDelete_of_valid hne hvalid, Prog.eval_call]
    rfl

/-- The keys that a removal finds. -/
def foundKeys (c : Context) (svc : Service) (r : Request) (σ : Store) : List Key :=
  (svc.found (toRemove c (r.formValue "shareId") (r.formValue "ownerId")
    (r.formValue "presetName")) σ).map Prod.fst

theorem mem_foundKeys (hσ : WellKeyed c σ) {k : Key} :
    k ∈ foundKeys c svc r σ ↔ ∃ p, Has σ k p ∧ Matches (r.formValue "shareId")
      (r.formValue "ownerId") (r.formValue "presetName") p :=
  hσ.mem_found_toRemove

/-- The keys a removal finds are keys of presets. -/
theorem WellKeyed.valid_found (hσ : WellKeyed c σ) :
    ∀ k ∈ foundKeys c svc r σ, k.valid = true := by
  intro k hk
  obtain ⟨p, hp, -⟩ := (mem_foundKeys hσ).mp hk
  exact (hσ.filed hp).valid

/-- A removal whose query is rejected ends there. -/
theorem removeFound_rejected {err : Error} (h : svc.rejects (removalQuery c r) = some err) :
    removeFound w r (svc.exec σ (.runQuery (removalQuery c r))).1 = .ret (failed w err) := by
  have hne : err ≠ .done := by
    rintro rfl
    exact svc.rejects_ne_done _ h
  simp only [Service.exec, h]
  exact if_neg hne

/-- A removal whose query is answered goes on to delete the keys found. -/
theorem removeFound_answered (h : svc.rejects (removalQuery c r) = none) :
    removeFound w r (svc.exec σ (.runQuery (removalQuery c r))).1 =
      removeDelete w r (foundKeys c svc r σ) := by
  simp only [Service.exec, h]
  rw [removeFound, if_pos (svc.page_final _), svc.page_results,
    Service.results_of_not_distinct distinct_toRemove]
  rfl

/-- Queries below a share id are not rejected. -/
theorem rejects_removalQuery (hs : r.formValue "shareId" ≠ "") :
    svc.rejects (removalQuery c r) = none :=
  svc.rejects_complete _ (by
    rw [ancestor_toRemove, incomplete_sharedPresetsKey]
    simpa using hs)

theorem eval_removePreset (hσ : WellKeyed c σ) (hs : r.formValue "shareId" ≠ "") :
    (removePreset c w r).eval svc.exec σ = (done w r, σ.eraseAll (foundKeys c svc r σ)) := by
  calc (removePreset c w r).eval svc.exec σ
      = (removeFound w r (svc.exec σ (.runQuery (removalQuery c r))).1).eval svc.exec σ := by
        rw [removePreset_eq, Prog.eval_call, Service.exec_runQuery_state]
    _ = (removeDelete w r (foundKeys c svc r σ)).eval svc.exec σ := by
        rw [removeFound_answered (rejects_removalQuery hs)]
    _ = (done w r, σ.eraseAll (foundKeys c svc r σ)) := eval_removeDelete hσ.valid_found

/-- **The answer of `removePreset`** does not depend on what is stored. -/
theorem eval_removePreset_answer (hσ : WellKeyed c σ) :
    ((removePreset c w r).eval svc.exec σ).1 =
      match svc.rejects (removalQuery c r) with
      | some err => failed w err
      | none => done w r := by
  rw [removePreset_eq, Prog.eval_call, Service.exec_runQuery_state]
  cases hcases : svc.rejects (removalQuery c r) with
  | none => rw [removeFound_answered hcases, eval_removeDelete hσ.valid_found]
  | some err => rw [removeFound_rejected hcases, Prog.eval_ret]

theorem eval_removePreset_noShare (hσ : WellKeyed c σ) (hs : r.formValue "shareId" = "") :
    ((removePreset c w r).eval svc.exec σ).2 = σ := by
  -- no preset is without a share id, so nothing is found
  have hfound : foundKeys c svc r σ = [] := by
    rw [foundKeys, hσ.found_noShare kind_toRemove (by rw [hs]; exact ancestor_toRemove)
      projection_toRemove, List.map_nil]
  rw [removePreset_eq, Prog.eval_call, Service.exec_runQuery_state]
  cases hcases : svc.rejects (removalQuery c r) with
  | none => rw [removeFound_answered hcases, hfound, removeDelete_nil, Prog.eval_ret]
  | some err => rw [removeFound_rejected hcases, Prog.eval_ret]

/-! ### `loadPreset` -/

/-- The presets found below a share id, in the order of the service. -/
def presetsBelow (c : Context) (svc : Service) (σ : Store) (s : GoString) : List SharedPreset :=
  (svc.found (below c s) σ).map fun e => (SharedPreset.load e.2).1

/-- Every entity found is a saved preset, and loads. -/
theorem WellKeyed.load_found (hσ : WellKeyed c σ) {e : EntityProto}
    (he : e ∈ svc.found (below c s) σ) : (SharedPreset.load e.2).2 = none := by
  obtain ⟨k, props, hget, -, rfl⟩ := Service.mem_found.mp he
  obtain ⟨p, rfl, -, -⟩ := hσ.exists_has hget
  rfl

theorem eval_loadPreset (hσ : WellKeyed c σ) (hs : r.formValue "shareId" ≠ "") :
    (loadPreset c w r).eval svc.exec σ = (.ok (writeJson w r
      (.presets (.of (presetsBelow c svc σ (r.formValue "shareId"))))), σ) := by
  have hload : ∀ e ∈ (svc.page (svc.found (below c (r.formValue "shareId")) σ)).results,
      (SharedPreset.load e.2).2 = none := by
    rw [svc.page_results]
    exact fun e he => hσ.load_found he
  calc (loadPreset c w r).eval svc.exec σ
      = (loaded w r (svc.page (svc.found (below c (r.formValue "shareId")) σ)), σ) := by
        rw [loadPreset_eq, Prog.eval_call, exec_count_below rfl rfl hs, Prog.eval_call,
          exec_runQuery_below rfl rfl hs, Prog.eval_ret]
    _ = (.ok (writeJson w r
          (.presets (.of (presetsBelow c svc σ (r.formValue "shareId"))))), σ) := by
        rw [loaded_eq hload (svc.page_final _), svc.page_results]
        rfl

theorem presetsBelow_noShare (hσ : WellKeyed c σ) : presetsBelow c svc σ "" = [] := by
  rw [presetsBelow, hσ.found_noShare rfl rfl rfl, List.map_nil]

/-- Without a share id, `loadPreset` answers an error or the empty list, and which
does not depend on what is stored. -/
theorem eval_loadPreset_noShare (hσ : WellKeyed c σ) (hs : r.formValue "shareId" = "") :
    ((loadPreset c w r).eval svc.exec σ).1 =
      match svc.rejects (below c (r.formValue "shareId")).forCount,
        svc.rejects (below c (r.formValue "shareId")) with
      | some err, _ => failed w err
      | none, some err => failed w err
      | none, none => .ok (writeJson w r (.presets (.of []))) := by
  have hfound : svc.found (below c (r.formValue "shareId")) σ = [] :=
    hσ.found_noShare rfl (by rw [hs]; rfl) rfl
  rw [loadPreset_eq, Prog.eval_call, Service.exec_count_state]
  cases hcount : svc.rejects (below c (r.formValue "shareId")).forCount with
  | some err =>
    simp only [Service.exec, hcount]
    rfl
  | none =>
    simp only [Service.exec, hcount, Prog.eval_call, Prog.eval_ret]
    -- the count and the query are rejected for themselves
    cases hquery : svc.rejects (below c (r.formValue "shareId")) with
    | some err =>
      have hne : err ≠ .done := by
        rintro rfl
        exact svc.rejects_ne_done _ hquery
      exact loaded_of_final_ne (fun e he => absurd he (by simp [Replies.results])) hne
    | none =>
      have hres : svc.results (below c (r.formValue "shareId")) σ = [] :=
        (Service.results_of_not_distinct rfl σ).trans hfound
      simp only [hres]
      rw [loaded_eq _ (svc.page_final _), svc.page_results]
      · rfl
      · rw [svc.page_results]
        exact fun e he => absurd he (by simp)

theorem eval_loadPreset_state (c : Context) (w : ResponseWriter) (r : Request) (σ : Store) :
    ((loadPreset c w r).eval svc.exec σ).2 = σ :=
  (loadPreset_inv (Prog.runs_of_eval (fun σ call => .ok σ call) (loadPreset c w r) σ)).1

/-! ### `getShareIds` -/

/-- The share ids that the query of `getShareIds` yields. -/
def shareIdsFound (svc : Service) (σ : Store) : List GoString :=
  (svc.results distinctShareIds σ).map fun e => (SharedPreset.load e.2).1.shareId

/-- What `getShareIds` answers when its query does not fail: it lists what the
query yields and blanks for what was counted and not yielded, and it panics when
less was counted than is yielded. -/
theorem listed_eq {count : ℕ} {res : Replies EntityProto} (hdone : res.final = .done) :
    listed w r count res =
      if res.results.length ≤ count then
        .ok (writeJson w r (.strings (.of
          (res.results.map (fun e => (SharedPreset.load e.2).1.shareId)
            ++ List.replicate (count - res.results.length) ("" : GoString)))))
      else .error .indexOutOfRange := by
  rw [listed, shareIdsLoop_eq (by rw [Iterator.final_receive]; exact hdone) (Nat.zero_le _),
    Iterator.results_receive, List.length_replicate, Nat.zero_add, List.take_zero,
    List.nil_append, List.drop_replicate]
  by_cases hle : res.results.length ≤ count
  · rw [if_pos hle, if_pos hle]
  · rw [if_neg hle, if_neg hle]

theorem eval_getShareIds (w : ResponseWriter) (r : Request) (σ : Store) :
    (getShareIds w r).eval svc.exec σ =
      (.ok (writeJson w r (.strings (.of (shareIdsFound svc σ)))), σ) := by
  have hcount : svc.exec σ (.count distinctShareIds) =
      (.ok (svc.results distinctShareIds σ).length, σ) := Service.exec_count rfl σ
  have hquery : svc.exec σ (.runQuery distinctShareIds) =
      (svc.page (svc.results distinctShareIds σ), σ) := Service.exec_runQuery rfl σ
  calc (getShareIds w r).eval svc.exec σ
      = (listed w r (svc.results distinctShareIds σ).length
          (svc.page (svc.results distinctShareIds σ)), σ) := by
        rw [getShareIds_eq, Prog.eval_call, hcount, Prog.eval_call, hquery, Prog.eval_ret]
    _ = (.ok (writeJson w r (.strings (.of (shareIdsFound svc σ)))), σ) := by
        -- run alone, as many are counted as are yielded
        rw [listed_eq (svc.page_final _), svc.page_results, if_pos le_rfl, Nat.sub_self,
          List.replicate_zero, List.append_nil]
        rfl

end PluginsDatastore
