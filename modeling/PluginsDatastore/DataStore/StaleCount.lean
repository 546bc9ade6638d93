import PluginsDatastore.DataStore.Agreement
import PluginsDatastore.DataStore.Flight

/-!
# `getShareIds` on a changing store

`getShareIds` makes a slice as long as its count and fills it by index from a
later query, while other requests write. `run_getShareIds` is its response in any
schedule, from the stores that the two calls find. When the query yields more
than was counted, the handler indexes outside the slice and panics
(`getShareIds_panics`); when it yields less, what is left of the slice are empty
strings. So the share ids are listed as they should be exactly when their number
is the same at both calls (`getShareIds_exact_iff`).
-/

namespace PluginsDatastore

open Calls

/-- The share ids of the stored presets. -/
def storedShareIds (σ : Store) : Finset GoString := ((presets σ).map (·.shareId)).toFinset

variable {c : Context} {svc : Service} {σ : Store} {w : ResponseWriter} {r : Request}

theorem mem_storedShareIds (hσ : WellKeyed c σ) {s : GoString} :
    s ∈ shareIdsFound svc σ ↔ s ∈ storedShareIds σ := by
  rw [mem_shareIdsFound hσ, storedShareIds, Multiset.mem_toFinset, Multiset.mem_map]
  refine ⟨?_, ?_⟩
  · intro h
    obtain ⟨k, p, hp, hs⟩ := h
    exact ⟨p, (mem_presets hσ).mpr ⟨k, hp⟩, hs⟩
  · intro h
    obtain ⟨p, hmem, hs⟩ := h
    obtain ⟨k, hp⟩ := (mem_presets hσ).mp hmem
    exact ⟨k, p, hp, hs⟩

/-- The query of `getShareIds` has one result for every stored share id. -/
theorem length_results_distinctShareIds (hσ : WellKeyed c σ) :
    (svc.results distinctShareIds σ).length = (storedShareIds σ).card := by
  have hset : (shareIdsFound svc σ).toFinset = storedShareIds σ := by
    ext s
    rw [List.mem_toFinset, mem_storedShareIds hσ]
  calc (svc.results distinctShareIds σ).length
      = (shareIdsFound svc σ).length := (List.length_map _).symm
    _ = (shareIdsFound svc σ).toFinset.card :=
        (List.toFinset_card_of_nodup (nodup_shareIdsFound hσ)).symm
    _ = (storedShareIds σ).card := by rw [hset]

/-! ### Responses -/

/-- A response tells the JSON that was written to it. -/
theorem encode_eq_of_writeJson_eq {v v' : Value} (h : writeJson w r v = writeJson w r v') :
    v.encode = v'.encode := by
  have hbody := congrArg ResponseWriter.body h
  rw [body_writeJson, body_writeJson] at hbody
  have hrest := List.append_cancel_left hbody
  -- what is written around the JSON does not depend on it
  by_cases hcb : r.formValue "callback" = ""
  · rwa [if_pos hcb, if_pos hcb] at hrest
  · rw [if_neg hcb, if_neg hcb] at hrest
    exact List.append_cancel_left (List.append_cancel_right hrest)

theorem encodeString_ne_nil (s : GoString) : encodeString s ≠ [] := by
  unfold encodeString
  rw [List.append_assoc]
  exact List.append_ne_nil_of_left_ne_nil (by decide) _

/-- Blanks at the end of a list show in the response. -/
theorem writeJson_blanks_ne (l : List GoString) {m : ℕ} (hm : m ≠ 0) :
    writeJson w r (.strings (.of (l ++ List.replicate m ("" : GoString)))) ≠
      writeJson w r (.strings (.of l)) := by
  intro heq
  -- the two encodings end in the same newline
  have hencode := List.append_cancel_right (encode_eq_of_writeJson_eq heq)
  have hblanks : List.replicate m ("" : GoString) ≠ [] := by
    rw [ne_eq, List.replicate_eq_nil_iff]
    exact hm
  exact encodeSlice_append_ne encodeString_ne_nil hblanks hencode

/-- What is answered to a count of `m` and a query that yields `l` is the list
`l` exactly when the two numbers are the same. -/
theorem listed_eq_iff {m : ℕ} {res : Replies EntityProto} (hdone : res.final = .done) :
    listed w r m res = .ok (writeJson w r (.strings (.of
        (res.results.map fun e => (SharedPreset.load e.2).1.shareId)))) ↔
      m = res.results.length := by
  rw [listed_eq hdone]
  by_cases hle : res.results.length ≤ m
  · rw [if_pos hle, Except.ok.injEq]
    by_cases hm : m - res.results.length = 0
    · rw [hm, List.replicate_zero, List.append_nil]
      exact ⟨fun _ => by omega, fun _ => rfl⟩
    · -- blanks are left
      exact ⟨fun h => absurd h (writeJson_blanks_ne _ hm), fun h => absurd h (by omega)⟩
  · -- the slice is too short
    rw [if_neg hle]
    exact ⟨fun h => absurd h (by simp), fun h => absurd h (by omega)⟩

/-! ### A request in flight -/

variable {ι : Type} [DecidableEq ι] {xs : ι → Inquiry} {g : ι}

/-- **The response of `getShareIds` in a schedule**, from the stores at its two
calls. -/
theorem run_getShareIds (hg : (xs g).endpoint = .getShareIds) {before between : List ι}
    (hbefore : g ∉ before) (hbetween : g ∉ between) (rest : List ι) :
    ((flight c σ xs).run svc.exec (before ++ g :: between ++ g :: rest)).prog g =
      .ret (listed {} (xs g).request
        (svc.results distinctShareIds ((flight c σ xs).run svc.exec before).state).length
        (svc.page (svc.results distinctShareIds
          ((flight c σ xs).run svc.exec (before ++ g :: between)).state))) := by
  have hstart : ((flight c σ xs).run svc.exec before).prog g = getShareIds {} (xs g).request := by
    rw [flight_prog_of_notMem hbefore, Inquiry.program, hg]
    rfl
  -- the count
  have hcounted : ((flight c σ xs).run svc.exec (before ++ g :: between)).prog g =
      .call (I := datastore) (.runQuery distinctShareIds) fun res => .ret (listed {} (xs g).request
        (svc.results distinctShareIds ((flight c σ xs).run svc.exec before).state).length res) := by
    rw [Pool.run_append, Pool.run_cons, Pool.run_prog_of_notMem hbetween,
      Pool.fire_call (hstart.trans getShareIds_eq), Pool.step_prog_self,
      Service.exec_count (q := distinctShareIds) rfl]
  -- the query
  rw [Pool.run_append, Pool.run_cons, Pool.fire_call hcounted]
  refine Pool.run_prog_ret ?_ rest
  rw [Pool.step_prog_self, Service.exec_runQuery (q := distinctShareIds) rfl]

/-- **When `getShareIds` survives a stale count.** From every store that completed
requests lead to, with any number of other requests in flight and in any
interleaving of their calls, the query of `getShareIds` yields every share id that
is then stored, once; and the response is the list of these if and only if as many
share ids were stored when the count was made. -/
theorem getShareIds_exact_iff (c : Context) (svc : Service) (σ : Store)
    (hσ : Reachable c svc σ) (xs : ι → Inquiry) (g : ι) (hg : (xs g).endpoint = .getShareIds)
    (before between rest : List ι) (hbefore : g ∉ before) (hbetween : g ∉ between) :
    let counted := ((flight c σ xs).run svc.exec before).state
    let queried := ((flight c σ xs).run svc.exec (before ++ g :: between)).state
    (shareIdsFound svc queried).Nodup ∧
    (∀ s, s ∈ shareIdsFound svc queried ↔ s ∈ storedShareIds queried) ∧
    (((flight c σ xs).run svc.exec (before ++ g :: between ++ g :: rest)).prog g =
        .ret (.ok (writeJson {} (xs g).request (.strings (.of (shareIdsFound svc queried))))) ↔
      (storedShareIds counted).card = (storedShareIds queried).card) := by
  intro counted queried
  have hcounted : WellKeyed c counted := flight_wellKeyed svc hσ.wellKeyed xs before
  have hqueried : WellKeyed c queried :=
    flight_wellKeyed svc hσ.wellKeyed xs (before ++ g :: between)
  refine ⟨nodup_shareIdsFound hqueried, fun s => mem_storedShareIds hqueried, ?_⟩
  -- a count is the number of the share ids stored when it is made
  have hiff := @listed_eq_iff {} (xs g).request (svc.results distinctShareIds counted).length
    (svc.page (svc.results distinctShareIds queried)) (svc.page_final _)
  rw [svc.page_results, length_results_distinctShareIds hcounted,
    length_results_distinctShareIds hqueried] at hiff
  rw [run_getShareIds hg hbefore hbetween, Prog.ret.injEq,
    length_results_distinctShareIds hcounted]
  exact hiff

namespace Sample

/-- A list of the share ids is asked for while Ann stores a preset. -/
def listAndStore : Bool → Inquiry
  | false => ⟨.getShareIds, bob⟩
  | true => ⟨.store, ann⟩

end Sample

/-- Bob's preset is stored between the count and the query. Its share id is Ann's, so the
count is not stale. -/
theorem getShareIds_exact_ann :
    ((flight Sample.context (Sample.after [⟨.store, Sample.ann⟩])
      (Sample.withBob ⟨.getShareIds, Sample.ann⟩)).run Service.inKeyOrder.exec
        [true, false, false, true]).prog true = .ret (.ok (writeJson {} Sample.ann
          (.strings (.of (shareIdsFound .inKeyOrder ((flight Sample.context
            (Sample.after [⟨.store, Sample.ann⟩]) (Sample.withBob ⟨.getShareIds, Sample.ann⟩)).run
              Service.inKeyOrder.exec [true, false, false]).state))))) :=
  (getShareIds_exact_iff Sample.context .inKeyOrder _ (Sample.reachable_after _)
    (Sample.withBob ⟨.getShareIds, Sample.ann⟩) true rfl [] [false, false] [] (by decide)
    (by decide)).2.2.mpr (by decide)

/-- **A stale count.** Ann's preset is the first one and is stored between the
count and the query, so that the query yields a share id there is no element for. -/
theorem getShareIds_panics :
    ((flight Sample.context KeyedStore.empty Sample.listAndStore).run Service.inKeyOrder.exec
      [false, true, true, false]).prog false = .ret (.error .indexOutOfRange) := by
  have hrun := @run_getShareIds Sample.context .inKeyOrder KeyedStore.empty Bool _
    Sample.listAndStore false rfl [] [true, true] (by decide) (by decide) []
  -- nothing was counted and one share id is yielded
  refine hrun.trans (congrArg Prog.ret ((listed_eq (Service.inKeyOrder.page_final _)).trans ?_))
  exact if_neg (by decide)

end PluginsDatastore
