import PluginsDatastore.DataStore.Contents
import PluginsDatastore.DataStore.Interleaved

/-!
# The moments of a request

Between the calls of a request others may change the store, so what a request
reads and what it changes belong to moments of the interleaving: the states in
which its calls were made. This module says which calls an answered request has
made, what it saw and did at each of them, and how its answer follows.

`load_moment` is for readers: the list that `loadPreset` answers is the presets of
one moment, however many requests write meanwhile, and never a mixture of several.
`remove_moments` and `store_moments` are for the writers: there is a moment at which
the request looked and a later one at which it took effect, all at once, by what it
had seen at the first; no other call of it changes the store. An error is always the
error of one of its calls, or that of a key without a share id.

The turns of a request are those of `Pool.Turns`, and the three predicates on them
follow the trees of the handlers.
-/

namespace PluginsDatastore

open Calls

variable {ι : Type} [DecidableEq ι]

variable {c : Context} {svc : Service} {σ σ' : Store} {xs : ι → Inquiry} {sched : List ι}
  {P Q : Pool datastore ι Store Served} {i : ι} {r : Request} {a : Served}
  {ts : List (Pool.Turn datastore ι Store Served)}

/-! ### Loading -/

/-- What the query of a load makes of its reply: its error, or all that is stored
under the share id. -/
theorem loaded_of_exec (hσ : WellKeyed c σ) {res : Replies EntityProto} {σ' : Store}
    (h : svc.Exec σ (.runQuery (below c (r.formValue "shareId"))) res σ') :
    (res.final ≠ .done ∧ loaded {} r res = failed {} res.final) ∨
      ∃ l : List SharedPreset, loaded {} r res = .ok (writeJson {} r (.presets (.of l))) ∧
        (l : Multiset SharedPreset) = shared σ (r.formValue "shareId") := by
  -- what the query yields are saved presets, so all of them load
  have hload : ∀ e ∈ res.results, (SharedPreset.load e.2).2 = none := by
    intro e he
    have hprefix := exec_runQuery_prefix h
    have hmem := List.IsPrefix.subset hprefix he
    rw [Service.results_of_not_distinct rfl] at hmem
    exact hσ.load_found hmem
  by_cases hdone : res.final = .done
  · refine .inr ⟨_, loaded_eq hload hdone, ?_⟩
    rw [(exec_runQuery_inv h).2 hdone, Service.results_of_not_distinct rfl]
    exact coe_presetsBelow hσ _
  · exact .inl ⟨hdone, loaded_of_final_ne hload hdone⟩

/-- **The calls of an answered load.** A failed count or a failed query is the answer.
Otherwise the answer is the list of the presets that the share id has at the moment of
the query. -/
inductive LoadTurns (c : Context) (r : Request) :
    Served → List (Pool.Turn datastore ι Store Served) → Prop
  | countFailed {M M' : Pool datastore ι Store Served} {err : Error}
      (hstate : M'.state = M.state) :
      LoadTurns c r (failed {} err)
        [⟨M, .count (below c (r.formValue "shareId")).forCount, .error err, M'⟩]
  | queryFailed {M₁ M₁' M₂ M₂' : Pool datastore ι Store Served} {n : ℕ}
      {res : Replies EntityProto} (hstate₁ : M₁'.state = M₁.state)
      (hstate₂ : M₂'.state = M₂.state) (hfinal : res.final ≠ .done) :
      LoadTurns c r (failed {} res.final)
        [⟨M₁, .count (below c (r.formValue "shareId")).forCount, .ok n, M₁'⟩,
          ⟨M₂, .runQuery (below c (r.formValue "shareId")), res, M₂'⟩]
  | listed {M₁ M₁' M₂ M₂' : Pool datastore ι Store Served} {n : ℕ}
      {res : Replies EntityProto} {l : List SharedPreset} (hstate₁ : M₁'.state = M₁.state)
      (hstate₂ : M₂'.state = M₂.state)
      (hl : (l : Multiset SharedPreset) = shared M₂.state (r.formValue "shareId")) :
      LoadTurns c r (.ok (writeJson {} r (.presets (.of l))))
        [⟨M₁, .count (below c (r.formValue "shareId")).forCount, .ok n, M₁'⟩,
          ⟨M₂, .runQuery (below c (r.formValue "shareId")), res, M₂'⟩]

/-- **A load reads one moment.** Among any requests in flight, interleaved in any
way and with any calls failing: a `loadPreset` that has been answered made a count and
then a query, which changed nothing. It was answered by the error of one of them, or by
exactly the presets that its share id had at the moment of its query. -/
theorem load_moment (c : Context) (svc : Service) (σ : Store) (hσ : Reachable c svc σ)
    (xs : ι → Inquiry) (sched : List ι) (Q : Pool datastore ι Store Served)
    (h : Trace (Pool.Fires (I := datastore) svc.Exec) (flight c σ xs) sched Q) (i : ι)
    (hi : (xs i).endpoint = .load) (a : Served) (hret : Q.prog i = .ret a) :
    ∃ ts, Pool.Turns (I := datastore) svc.Exec i (flight c σ xs) sched ts Q ∧
      LoadTurns c (xs i).request a ts := by
  obtain ⟨ts, hts⟩ := Pool.exists_turns h i
  refine ⟨ts, hts, ?_⟩
  have hstart : (flight c σ xs).prog i = loadPreset c {} (xs i).request :=
    Inquiry.program_eq hi
  rw [loadPreset_eq] at hstart
  obtain ⟨_, M₁, reply, M₁', ts₁, _, rfl, -, hR₁, hnext₁, hafter₁, hrest₁⟩ :=
    hts.of_call hstart hret
  have hstate₁ := exec_count_state_eq hR₁
  cases reply with
  | error err =>
    -- the count answers a request only by failing
    obtain ⟨rfl, rfl⟩ := hrest₁.of_ret hnext₁ hret
    exact .countFailed hstate₁
  | ok n =>
    obtain ⟨_, M₂, res, M₂', ts₂, _, rfl, hbefore₂, hR₂, hnext₂, -, hrest₂⟩ :=
      hrest₁.of_call hnext₁ hret
    obtain ⟨rfl, rfl⟩ := hrest₂.of_ret hnext₂ hret
    obtain ⟨hstate₂, -⟩ := exec_runQuery_inv hR₂
    -- the query reads the moment at which it is made
    rcases loaded_of_exec (hσ.wellKeyed.interleaved (hafter₁.append hbefore₂)) hR₂ with
      ⟨hfinal, hfailed⟩ | ⟨l, hl, hcoe⟩
    · rw [hfailed]
      exact .queryFailed hstate₁ hstate₂ hfinal
    · rw [hl]
      exact .listed hstate₁ hstate₂ hcoe

/-- Ann loads the presets of the team, and Bob's store comes between her two calls. -/
theorem load_moment_ann : ∃ Q, Trace (Pool.Fires (I := datastore) Service.inKeyOrder.Exec)
      (flight Sample.context (Sample.after [⟨.store, Sample.ann⟩])
        (Sample.withBob ⟨.load, Sample.ann⟩)) [true, false, false, true] Q ∧
    ∃ ts, Pool.Turns (I := datastore) Service.inKeyOrder.Exec true
        (flight Sample.context (Sample.after [⟨.store, Sample.ann⟩])
          (Sample.withBob ⟨.load, Sample.ann⟩)) [true, false, false, true] ts Q ∧
      LoadTurns Sample.context Sample.ann (.ok (writeJson {} Sample.ann
        (.presets (.of [submitted Sample.bobTall, submitted Sample.ann])))) ts := by
  have htrace : ∃ Q, Trace (Pool.Fires (I := datastore) Service.inKeyOrder.Exec)
      (flight Sample.context (Sample.after [⟨.store, Sample.ann⟩])
        (Sample.withBob ⟨.load, Sample.ann⟩)) [true, false, false, true] Q ∧
      Q.prog true = .ret (.ok (writeJson {} Sample.ann
        (.presets (.of [submitted Sample.bobTall, submitted Sample.ann])))) :=
    ⟨_, .cons (.call loadPreset_eq (.ok _ _))
      (.cons (.call (storePreset_eq (c := Sample.context) (r := Sample.bobTall)) (.ok _ _))
        (.cons (.call rfl (.ok _ _)) (.cons (.call rfl (.ok _ _)) (.nil _)))), by rfl⟩
  obtain ⟨Q, hQ, hret⟩ := htrace
  exact ⟨Q, hQ, load_moment Sample.context .inKeyOrder _ (Sample.reachable_after _) _ _ Q hQ true
    rfl _ hret⟩

/-! ### Removing -/

/-- **The calls of an answered removal.** A failed query is the answer, and nothing is
deleted. Otherwise the keys of the presets that match at the moment of the query are
deleted, in one later call: all of them where the answer is success, some of them where
the deletion failed, whose error is then the answer. -/
inductive RemovalTurns (c : Context) (r : Request) :
    Served → List (Pool.Turn datastore ι Store Served) → Prop
  | queryFailed {M M' : Pool datastore ι Store Served} {res : Replies EntityProto}
      (hstate : M'.state = M.state) (hfinal : res.final ≠ .done) :
      RemovalTurns c r (failed {} res.final) [⟨M, .runQuery (removalQuery c r), res, M'⟩]
  | nothing {M M' : Pool datastore ι Store Served} {res : Replies EntityProto}
      (hstate : M'.state = M.state) (hnone : AllMatching M.state r []) :
      RemovalTurns c r (done {} r) [⟨M, .runQuery (removalQuery c r), res, M'⟩]
  | deleted {M₁ M₁' M₂ M₂' : Pool datastore ι Store Served} {res : Replies EntityProto}
      {keys : List Key} (hstate : M₁'.state = M₁.state) (hkeys : AllMatching M₁.state r keys)
      (hdeleted : M₂'.state = M₂.state.eraseAll keys) :
      RemovalTurns c r (done {} r)
        [⟨M₁, .runQuery (removalQuery c r), res, M₁'⟩, ⟨M₂, .delete keys, none, M₂'⟩]
  | deleteFailed {M₁ M₁' M₂ M₂' : Pool datastore ι Store Served} {res : Replies EntityProto}
      {keys deleted : List Key} {err : Error} (hstate : M₁'.state = M₁.state)
      (hkeys : AllMatching M₁.state r keys) (hsub : deleted ⊆ keys)
      (hdeleted : M₂'.state = M₂.state.eraseAll deleted) :
      RemovalTurns c r (failed {} err)
        [⟨M₁, .runQuery (removalQuery c r), res, M₁'⟩, ⟨M₂, .delete keys, some err, M₂'⟩]

/-- What the turns of a removal are once its query has yielded all its keys. -/
theorem removalTurns_of_found {M M' : Pool datastore ι Store Served}
    {res : Replies EntityProto} {keys : List Key} (hσ : WellKeyed c M.state)
    (hstate : M'.state = M.state) (hkeys : AllMatching M.state r keys)
    (hnext : M'.prog i = removeDelete {} r keys)
    (h : Pool.Turns (I := datastore) svc.Exec i M' sched ts Q) (hret : Q.prog i = .ret a) :
    RemovalTurns c r a (⟨M, .runQuery (removalQuery c r), res, M'⟩ :: ts) := by
  by_cases hne : keys = []
  · -- there is nothing to delete, and no call
    subst hne
    obtain ⟨rfl, rfl⟩ := h.of_ret (hnext.trans removeDelete_nil) hret
    exact .nothing hstate hkeys
  · have hvalid : ∀ k ∈ keys, k.valid = true := by
      intro k hk
      obtain ⟨p, hp, -⟩ := (hkeys k).mp hk
      exact (hσ.filed hp).valid
    rw [removeDelete_of_valid hne hvalid] at hnext
    obtain ⟨_, M₂, reply, M₂', ts₂, _, rfl, -, hR, hnext₂, -, hrest⟩ := h.of_call hnext hret
    rcases exec_delete_inv hR with ⟨rfl, hdeleted⟩ | ⟨err, deleted, rfl, hsub, hdeleted⟩
    · obtain ⟨rfl, rfl⟩ := hrest.of_ret hnext₂ hret
      exact .deleted hstate hkeys hdeleted
    · obtain ⟨rfl, rfl⟩ := hrest.of_ret hnext₂ hret
      exact .deleteFailed hstate hkeys hsub hdeleted

/-- **A removal has two moments.** Among any requests in flight, interleaved in any
way and with any calls failing: a `removePreset` that has been answered made a query,
which changed nothing, and then at most a deletion. It deleted only keys of presets that
matched at the moment of its query, all in one step, and all of them when it answered
success. -/
theorem remove_moments (c : Context) (svc : Service) (σ : Store) (hσ : Reachable c svc σ)
    (xs : ι → Inquiry) (sched : List ι) (Q : Pool datastore ι Store Served)
    (h : Trace (Pool.Fires (I := datastore) svc.Exec) (flight c σ xs) sched Q) (i : ι)
    (hi : (xs i).endpoint = .remove) (a : Served) (hret : Q.prog i = .ret a) :
    ∃ ts, Pool.Turns (I := datastore) svc.Exec i (flight c σ xs) sched ts Q ∧
      RemovalTurns c (xs i).request a ts := by
  obtain ⟨ts, hts⟩ := Pool.exists_turns h i
  refine ⟨ts, hts, ?_⟩
  have hstart : (flight c σ xs).prog i = removePreset c {} (xs i).request :=
    Inquiry.program_eq hi
  rw [removePreset_eq] at hstart
  obtain ⟨_, M, res, M', ts', _, rfl, hbefore, hR, hnext, -, hrest⟩ := hts.of_call hstart hret
  have hkeyed := hσ.wellKeyed.interleaved hbefore
  obtain ⟨hstate, hres⟩ := exec_runQuery_inv hR
  unfold removeFound at hnext
  by_cases hfinal : res.final = .done
  · -- the keys found are those of the presets that match at this moment
    have hkeys : AllMatching M.state (xs i).request (res.results.map Prod.fst) := by
      intro k
      rw [hres hfinal, Service.results_of_not_distinct distinct_toRemove,
        hkeyed.mem_found_toRemove]
    rw [if_pos hfinal] at hnext
    exact removalTurns_of_found hkeyed hstate hkeys hnext hrest hret
  · -- a failed query is answered by its error
    rw [if_neg hfinal] at hnext
    obtain ⟨rfl, rfl⟩ := hrest.of_ret hnext hret
    exact .queryFailed hstate hfinal

/-- Ann removes her preset, and Bob's store comes between her query and her deletion. -/
theorem remove_moments_ann : ∃ Q, Trace (Pool.Fires (I := datastore) Service.inKeyOrder.Exec)
      (flight Sample.context (Sample.after [⟨.store, Sample.ann⟩])
        (Sample.withBob ⟨.remove, Sample.ann⟩)) [true, false, false, true] Q ∧
    Q.prog true = .ret (done {} Sample.ann) ∧
    Q.state.get (presetKey Sample.context "team" "wide") = none ∧
    ∃ ts, Pool.Turns (I := datastore) Service.inKeyOrder.Exec true
        (flight Sample.context (Sample.after [⟨.store, Sample.ann⟩])
          (Sample.withBob ⟨.remove, Sample.ann⟩)) [true, false, false, true] ts Q ∧
      RemovalTurns Sample.context Sample.ann (done {} Sample.ann) ts := by
  have htrace : ∃ Q, Trace (Pool.Fires (I := datastore) Service.inKeyOrder.Exec)
      (flight Sample.context (Sample.after [⟨.store, Sample.ann⟩])
        (Sample.withBob ⟨.remove, Sample.ann⟩)) [true, false, false, true] Q ∧
      Q.prog true = .ret (done {} Sample.ann) ∧
      Q.state.get (presetKey Sample.context "team" "wide") = none :=
    ⟨_, .cons (.call (removePreset_eq (c := Sample.context) (r := Sample.ann)) (.ok _ _))
      (.cons (.call (storePreset_eq (c := Sample.context) (r := Sample.bobTall)) (.ok _ _))
        (.cons (.call rfl (.ok _ _)) (.cons (.call rfl (.ok _ _)) (.nil _)))), by rfl, by decide⟩
  obtain ⟨Q, hQ, hret, hnone⟩ := htrace
  exact ⟨Q, hQ, hret, hnone, remove_moments Sample.context .inKeyOrder _
    (Sample.reachable_after _) _ _ Q hQ true rfl _ hret⟩

/-! ### Storing -/

/-- **The calls of a granted store.** Without a share id it makes none. Otherwise it
writes the whole preset in one call: where the answer is success the preset is written,
where the write failed, whose error is then the answer, it is or it is not. -/
inductive WriteTurns (c : Context) (svc : Service) (r : Request) :
    Served → List (Pool.Turn datastore ι Store Served) → Prop
  | invalid (hs : (submitted r).shareId = "") : WriteTurns c svc r (failed {} .invalidKey) []
  | written {M M' : Pool datastore ι Store Served} {key : Key}
      (hs : (submitted r).shareId ≠ "") (hwritten : M'.state = written c svc r M.state) :
      WriteTurns c svc r (done {} r)
        [⟨M, .put (presetKey c (submitted r).shareId (submitted r).presetName)
          (submitted r).save, .ok key, M'⟩]
  | writeFailed {M M' : Pool datastore ι Store Served} {err : Error}
      (hs : (submitted r).shareId ≠ "")
      (hwritten : M'.state = M.state ∨ M'.state = PluginsDatastore.written c svc r M.state) :
      WriteTurns c svc r (failed {} err)
        [⟨M, .put (presetKey c (submitted r).shareId (submitted r).presetName)
          (submitted r).save, .error err, M'⟩]

/-- **The calls of an answered store.** The first count grants it when it finds the pair
free, and otherwise the second when it finds the owner's preset; only then does it write.
A store that neither grants is answered as success is: each of the counts has failed, or
found the pair taken and nothing of the owner's. -/
inductive StoreTurns (c : Context) (svc : Service) (r : Request) :
    Served → List (Pool.Turn datastore ι Store Served) → Prop
  | free {M M' : Pool datastore ι Store Served} {a : Served}
      {ts : List (Pool.Turn datastore ι Store Served)} (hstate : M'.state = M.state)
      (hfree : ¬ Taken M.state (submitted r).shareId (submitted r).presetName)
      (hwrite : WriteTurns c svc r a ts) :
      StoreTurns c svc r a
        (⟨M, .count (named c (submitted r).shareId (submitted r).presetName), .ok 0, M'⟩ :: ts)
  | owned {M₁ M₁' M₂ M₂' : Pool datastore ι Store Served} {r₁ : Except Error ℕ} {n : ℕ}
      {a : Served} {ts : List (Pool.Turn datastore ι Store Served)}
      (hstate₁ : M₁'.state = M₁.state) (hstate₂ : M₂'.state = M₂.state)
      (htaken : (∃ n, r₁ = .ok n) →
        Taken M₁.state (submitted r).shareId (submitted r).presetName)
      (hholds : Holds M₂.state (submitted r).shareId (submitted r).presetName
        (submitted r).ownerId)
      (hwrite : WriteTurns c svc r a ts) :
      StoreTurns c svc r a
        (⟨M₁, .count (named c (submitted r).shareId (submitted r).presetName), r₁, M₁'⟩ ::
          ⟨M₂, .count (ownedNamed c (submitted r).shareId (submitted r).ownerId
            (submitted r).presetName), .ok (n + 1), M₂'⟩ :: ts)
  | refused {M₁ M₁' M₂ M₂' : Pool datastore ι Store Served} {r₁ r₂ : Except Error ℕ}
      (hstate₁ : M₁'.state = M₁.state) (hstate₂ : M₂'.state = M₂.state)
      (htaken : (∃ n, r₁ = .ok n) →
        Taken M₁.state (submitted r).shareId (submitted r).presetName)
      (hnot : (∃ n, r₂ = .ok n) → ¬ Holds M₂.state (submitted r).shareId
        (submitted r).presetName (submitted r).ownerId) :
      StoreTurns c svc r (done {} r)
        [⟨M₁, .count (named c (submitted r).shareId (submitted r).presetName), r₁, M₁'⟩,
          ⟨M₂, .count (ownedNamed c (submitted r).shareId (submitted r).ownerId
            (submitted r).presetName), r₂, M₂'⟩]

/-- The turns of a store that a count has granted. -/
theorem writeTurns_of_granted (hprog : P.prog i = storeGranted c {} r)
    (h : Pool.Turns (I := datastore) svc.Exec i P sched ts Q) (hret : Q.prog i = .ret a) :
    WriteTurns c svc r a ts := by
  unfold storeGranted at hprog
  by_cases hs : (submitted r).shareId = ""
  · rw [if_pos hs] at hprog
    obtain ⟨rfl, rfl⟩ := h.of_ret hprog hret
    exact .invalid hs
  · rw [if_neg hs, storeWrite] at hprog
    obtain ⟨_, M, reply, M', ts', _, rfl, -, hR, hnext, -, hrest⟩ := h.of_call hprog hret
    -- an error does not tell whether the write was applied
    rcases exec_put_inv hR with ⟨rfl, hstate⟩ | ⟨err, rfl, hstate⟩
    · obtain ⟨rfl, rfl⟩ := hrest.of_ret hnext hret
      exact .written hs hstate
    · obtain ⟨rfl, rfl⟩ := hrest.of_ret hnext hret
      exact .writeFailed hs hstate

/-- A count grants nothing when it fails, and otherwise by its number. -/
theorem absent_cases (reply : Except Error ℕ) :
    reply = .ok 0 ∨ (absent reply = false ∧ ∀ n, reply = .ok n → n ≠ 0) := by
  rcases reply with err | n
  · exact .inr ⟨rfl, fun n hn => absurd hn (by simp)⟩
  · cases n with
    | zero => exact .inl rfl
    | succ n => exact .inr ⟨rfl, fun m hm => by rw [← Except.ok.inj hm]; exact n.succ_ne_zero⟩

theorem present_cases (reply : Except Error ℕ) :
    (∃ n, reply = .ok (n + 1)) ∨ (present reply = false ∧ ∀ n, reply = .ok n → n = 0) := by
  rcases reply with err | n
  · exact .inr ⟨rfl, fun n hn => absurd hn (by simp)⟩
  · cases n with
    | zero => exact .inr ⟨rfl, fun m hm => (Except.ok.inj hm).symm⟩
    | succ n => exact .inl ⟨n, rfl⟩

/-- **A store has two moments.** Among any requests in flight, interleaved in any way
and with any calls failing: a `storePreset` that has been answered wrote the whole preset,
in one step, only if one of its counts had found its pair free or its owner's at an earlier
moment, and it changed nothing else. It answers success exactly when that write was
acknowledged, or when neither count granted it; each count that succeeded then told the
truth of its moment. -/
theorem store_moments (c : Context) (svc : Service) (σ : Store) (hσ : Reachable c svc σ)
    (xs : ι → Inquiry) (sched : List ι) (Q : Pool datastore ι Store Served)
    (h : Trace (Pool.Fires (I := datastore) svc.Exec) (flight c σ xs) sched Q) (i : ι)
    (hi : (xs i).endpoint = .store) (a : Served) (hret : Q.prog i = .ret a) :
    ∃ ts, Pool.Turns (I := datastore) svc.Exec i (flight c σ xs) sched ts Q ∧
      StoreTurns c svc (xs i).request a ts := by
  obtain ⟨ts, hts⟩ := Pool.exists_turns h i
  refine ⟨ts, hts, ?_⟩
  have hstart : (flight c σ xs).prog i = storePreset c {} (xs i).request :=
    Inquiry.program_eq hi
  rw [storePreset_eq] at hstart
  obtain ⟨_, M₁, r₁, M₁', ts₁, _, rfl, hbefore₁, hR₁, hnext₁, hafter₁, hrest₁⟩ :=
    hts.of_call hstart hret
  have hkeyed₁ := hσ.wellKeyed.interleaved hbefore₁
  have hstate₁ := exec_count_state_eq hR₁
  rcases absent_cases r₁ with rfl | ⟨habsent, hne⟩
  · -- the first count found nobody
    have hfree := hkeyed₁.found_named_eq_zero.mp (exec_count_ok rfl hR₁ rfl).symm
    exact .free hstate₁ hfree (writeTurns_of_granted hnext₁ hrest₁ hret)
  · have htaken : (∃ n, r₁ = .ok n) → Taken M₁.state (submitted (xs i).request).shareId
        (submitted (xs i).request).presetName := by
      rintro ⟨n, hn⟩
      by_contra hfree
      exact hne n hn ((exec_count_ok rfl hR₁ hn).trans (hkeyed₁.found_named_eq_zero.mpr hfree))
    rw [habsent, if_neg Bool.false_ne_true, storeSecond] at hnext₁
    obtain ⟨_, M₂, r₂, M₂', ts₂, _, rfl, hbefore₂, hR₂, hnext₂, -, hrest₂⟩ :=
      hrest₁.of_call hnext₁ hret
    have hkeyed₂ := hσ.wellKeyed.interleaved (hafter₁.append hbefore₂)
    have hstate₂ := exec_count_state_eq hR₂
    rcases present_cases r₂ with ⟨n, rfl⟩ | ⟨hpresent, hzero⟩
    · -- the second count found the owner
      have hholds : Holds M₂.state (submitted (xs i).request).shareId
          (submitted (xs i).request).presetName (submitted (xs i).request).ownerId := by
        by_contra hnot
        have hlen := exec_count_ok rfl hR₂ rfl
        exact n.succ_ne_zero (hlen.trans (hkeyed₂.found_ownedNamed_eq_zero.mpr hnot))
      exact .owned hstate₁ hstate₂ htaken hholds (writeTurns_of_granted hnext₂ hrest₂ hret)
    · -- a store that is not granted is answered at once
      rw [hpresent, if_neg Bool.false_ne_true] at hnext₂
      obtain ⟨rfl, rfl⟩ := hrest₂.of_ret hnext₂ hret
      refine .refused hstate₁ hstate₂ htaken ?_
      rintro ⟨n, hn⟩
      have hlen := exec_count_ok rfl hR₂ hn
      rw [hzero n hn] at hlen
      exact hkeyed₂.found_ownedNamed_eq_zero.mp hlen.symm

/-- Ann stores her preset, and Bob's store comes between her count and her write. -/
theorem store_moments_ann : ∃ Q, Trace (Pool.Fires (I := datastore) Service.inKeyOrder.Exec)
      (flight Sample.context KeyedStore.empty (Sample.withBob ⟨.store, Sample.ann⟩))
      [true, false, false, true] Q ∧
    Q.prog true = .ret (done {} Sample.ann) ∧
    Has Q.state (presetKey Sample.context "team" "wide") (submitted Sample.ann) ∧
    ∃ ts, Pool.Turns (I := datastore) Service.inKeyOrder.Exec true
        (flight Sample.context KeyedStore.empty (Sample.withBob ⟨.store, Sample.ann⟩))
        [true, false, false, true] ts Q ∧
      StoreTurns Sample.context .inKeyOrder Sample.ann (done {} Sample.ann) ts := by
  have htrace : ∃ Q, Trace (Pool.Fires (I := datastore) Service.inKeyOrder.Exec)
      (flight Sample.context KeyedStore.empty (Sample.withBob ⟨.store, Sample.ann⟩))
      [true, false, false, true] Q ∧ Q.prog true = .ret (done {} Sample.ann) ∧
      Has Q.state (presetKey Sample.context "team" "wide") (submitted Sample.ann) :=
    ⟨_, .cons (.call storePreset_eq (.ok _ _))
      (.cons (.call (storePreset_eq (c := Sample.context) (r := Sample.bobTall)) (.ok _ _))
        (.cons (.call rfl (.ok _ _)) (.cons (.call rfl (.ok _ _)) (.nil _)))), by rfl, by rfl⟩
  obtain ⟨Q, hQ, hret, hhas⟩ := htrace
  exact ⟨Q, hQ, hret, hhas, store_moments Sample.context .inKeyOrder _ Reachable.empty _ _ Q hQ
    true rfl _ hret⟩

end PluginsDatastore
