import PluginsDatastore.DataStore.WellKeyed

/-!
# What one request can do

The outcomes of the handlers run alone on a well-keyed store, when any of their
calls may fail: `StoreOutcome` for `storePreset`, `RemoveOutcome` for
`removePreset`, and nothing at all for the two readers. The inversion lemmas
(`storePreset_outcome`, `removePreset_inv`, `loadPreset_inv`, `getShareIds_inv`) walk
through the calls; invariants of runs are proved by cases on the outcome.

`written` is the store after a granted write. What it holds is said by `has_written`
for keys, and by `Holds.written` and `holds_written` for pairs of share id and name.
-/

namespace PluginsDatastore

open Calls

variable {c : Context} {svc : Service} {σ σ' : Store} {w : ResponseWriter} {r : Request}
  {s n o : GoString} {resp : Served}

/-! ### Single calls -/

/-- A count changes nothing. -/
theorem exec_count_state_eq {q : Query} {reply : Except Error ℕ}
    (h : svc.Exec σ (.count q) reply σ') : σ' = σ := by
  cases h with
  | ok => exact svc.exec_count_state σ q
  | countFails _ err => rfl

/-- The check believes a count only when it succeeded. -/
theorem exec_count_inv {q : Query} (hq : q.distinct = false) {reply : Except Error ℕ}
    (h : svc.Exec σ (.count q) reply σ') :
    (absent reply = true → (svc.found q σ).length = 0) ∧
      (present reply = true → (svc.found q σ).length ≠ 0) := by
  cases h with
  | ok =>
    rw [← Service.results_of_not_distinct hq]
    simp only [Service.exec]
    cases svc.rejects q <;> simp
  | countFails _ err => exact ⟨fun h => absurd h (by simp), fun h => absurd h (by simp)⟩

/-- A count that succeeds is the number of the entities found. -/
theorem exec_count_ok {q : Query} (hq : q.distinct = false) {reply : Except Error ℕ} {n : ℕ}
    (h : svc.Exec σ (.count q) reply σ') (hok : reply = .ok n) : n = (svc.found q σ).length := by
  cases h with
  | ok =>
    rcases svc.exec_count_cases σ q with ⟨err, -, hreply⟩ | hreply
    · rw [hreply] at hok
      exact absurd hok (by simp)
    · rw [hreply, Service.results_of_not_distinct hq] at hok
      exact (Except.ok.inj hok).symm
  | countFails _ err => exact absurd hok (by simp)

/-- A query changes nothing. It yields all results when it ends in `Done`. -/
theorem exec_runQuery_inv {q : Query} {res : Replies EntityProto}
    (h : svc.Exec σ (.runQuery q) res σ') :
    σ' = σ ∧ (res.final = .done → res.results = svc.results q σ) := by
  cases h with
  | ok =>
    rcases svc.exec_runQuery_cases σ q with ⟨err, hne, -, hexec⟩ | hexec
    · -- a rejected query ends in an error that is not `Done`
      rw [hexec]
      exact ⟨rfl, fun h => absurd h hne⟩
    · rw [hexec]
      exact ⟨rfl, fun _ => svc.page_results _⟩
  | queryFails _ _ hprefix hfinal => exact ⟨rfl, fun h => absurd h hfinal⟩

/-- A query yields its results in their order, whether it fails or not. -/
theorem exec_runQuery_prefix {q : Query} {res : Replies EntityProto}
    (h : svc.Exec σ (.runQuery q) res σ') : res.results <+: svc.results q σ := by
  cases h with
  | ok =>
    rcases svc.exec_runQuery_cases σ q with ⟨err, -, -, hexec⟩ | hexec
    · rw [hexec]
      exact List.nil_prefix
    · rw [hexec, svc.page_results]
  | queryFails _ _ hprefix hfinal => exact hprefix

/-- A write answers success when it was applied, and may answer an error then too. -/
theorem exec_put_inv {key : Key} {props : List Property} {reply : Except Error Key}
    (h : svc.Exec σ (.put key props) reply σ') :
    (reply = .ok (svc.putKey key σ) ∧ σ' = σ.put (svc.putKey key σ) props) ∨
      ∃ err, reply = .error err ∧ (σ' = σ ∨ σ' = σ.put (svc.putKey key σ) props) := by
  cases h with
  | ok => exact .inl ⟨rfl, rfl⟩
  | putLost _ _ err => exact .inr ⟨err, rfl, .inl rfl⟩
  | putApplied _ _ err => exact .inr ⟨err, rfl, .inr rfl⟩

/-- A deletion answers success when it was applied, and an error when it was
applied to any part of the keys. -/
theorem exec_delete_inv {keys : List Key} {reply : Option Error}
    (h : svc.Exec σ (.delete keys) reply σ') :
    (reply = none ∧ σ' = σ.eraseAll keys) ∨
      ∃ err deleted, reply = some err ∧ deleted ⊆ keys ∧ σ' = σ.eraseAll deleted := by
  cases h with
  | ok => exact .inl ⟨rfl, rfl⟩
  | deleteFails _ deleted err hsub => exact .inr ⟨err, deleted, rfl, hsub, rfl⟩

/-! ### `storePreset` -/

/-- The check may grant the request: nobody has a preset of its name, or its own
owner has. -/
def Granted (σ : Store) (r : Request) : Prop :=
  ¬ Taken σ (submitted r).shareId (submitted r).presetName ∨
    Holds σ (submitted r).shareId (submitted r).presetName (submitted r).ownerId

/-- The store after the write of `storePreset`. -/
def written (c : Context) (svc : Service) (r : Request) (σ : Store) : Store :=
  σ.put (svc.putKey (presetKey c (submitted r).shareId (submitted r).presetName) σ)
    (submitted r).save

/-- The key that the write goes to. -/
def writtenKey (c : Context) (svc : Service) (r : Request) (σ : Store) : Key :=
  svc.putKey (presetKey c (submitted r).shareId (submitted r).presetName) σ

theorem writtenKey_named (hn : (submitted r).presetName ≠ "") :
    writtenKey c svc r σ = presetKey c (submitted r).shareId (submitted r).presetName :=
  putKey_named hn σ

theorem writtenKey_unnamed_notMem (hn : (submitted r).presetName = "") :
    writtenKey c svc r σ ∉ σ.used :=
  putKey_unnamed_notMem hn σ

theorem filed_writtenKey (hs : (submitted r).shareId ≠ "") :
    Filed c (writtenKey c svc r σ) (submitted r) :=
  filed_putKey svc σ hs

theorem WellKeyed.written (hσ : WellKeyed c σ) (hs : (submitted r).shareId ≠ "") :
    WellKeyed c (written c svc r σ) :=
  hσ.put (filed_writtenKey hs)

theorem has_written {k : Key} {p : SharedPreset} :
    Has (written c svc r σ) k p ↔
      (k = writtenKey c svc r σ ∧ p = submitted r) ∨ (k ≠ writtenKey c svc r σ ∧ Has σ k p) :=
  has_put

theorem has_submitted : Has (written c svc r σ) (writtenKey c svc r σ) (submitted r) :=
  has_written.mpr (.inl ⟨rfl, rfl⟩)

theorem holds_submitted :
    Holds (written c svc r σ) (submitted r).shareId (submitted r).presetName
      (submitted r).ownerId :=
  has_submitted.holds

/-- What a write replaces is a preset of the pair that it writes. -/
theorem WellKeyed.replaced (hσ : WellKeyed c σ) (hs : (submitted r).shareId ≠ "")
    {p : SharedPreset} (hp : Has σ (writtenKey c svc r σ) p) :
    p.shareId = (submitted r).shareId ∧ p.presetName = (submitted r).presetName :=
  (hσ.filed hp).unique (filed_writtenKey hs)

/-- A pair that is held stays so under a write, unless the write is of that pair. -/
theorem Holds.written (h : Holds σ s n o) (hσ : WellKeyed c σ)
    (hs : (submitted r).shareId ≠ "") :
    Holds (written c svc r σ) s n o ∨
      ((submitted r).shareId = s ∧ (submitted r).presetName = n) := by
  obtain ⟨k, p, hp, rfl, rfl, rfl⟩ := h
  by_cases hk : k = writtenKey c svc r σ
  · -- the preset is replaced
    rw [hk] at hp
    obtain ⟨hshare, hname⟩ := hσ.replaced hs hp
    exact .inr ⟨hshare.symm, hname.symm⟩
  · exact .inl (has_written.mpr (.inr ⟨hk, hp⟩)).holds

/-- A pair that is held after a write is the one that was written, or was held
before. -/
theorem holds_written (h : Holds (written c svc r σ) s n o) :
    ((submitted r).shareId = s ∧ (submitted r).presetName = n ∧ (submitted r).ownerId = o) ∨
      Holds σ s n o := by
  obtain ⟨k, p, hp, hshare, hname, howner⟩ := h
  rcases has_written.mp hp with ⟨-, rfl⟩ | ⟨-, hp⟩
  · exact .inl ⟨hshare, hname, howner⟩
  · exact .inr ⟨k, p, hp, hshare, hname, howner⟩

/-- The outcomes of a granted request, by response and store. -/
inductive WriteOutcome (c : Context) (svc : Service) (w : ResponseWriter) (r : Request)
    (σ : Store) : Served → Store → Prop
  | invalid (hs : (submitted r).shareId = "") : WriteOutcome c svc w r σ (failed w .invalidKey) σ
  | lost (hs : (submitted r).shareId ≠ "") (err : Error) :
      WriteOutcome c svc w r σ (failed w err) σ
  | applied (hs : (submitted r).shareId ≠ "") (err : Error) :
      WriteOutcome c svc w r σ (failed w err) (written c svc r σ)
  | stored (hs : (submitted r).shareId ≠ "") :
      WriteOutcome c svc w r σ (done w r) (written c svc r σ)

theorem storeGranted_outcome (h : (storeGranted c w r).Runs svc.Exec σ resp σ') :
    WriteOutcome c svc w r σ resp σ' := by
  unfold storeGranted at h
  by_cases hs : (submitted r).shareId = ""
  · -- the key is invalid, and no call is made
    rw [if_pos hs, Prog.runs_ret_iff] at h
    obtain ⟨rfl, rfl⟩ := h
    exact .invalid hs
  · rw [if_neg hs, storeWrite, Prog.runs_call_iff] at h
    obtain ⟨reply, σ₁, hput, hrest⟩ := h
    rcases exec_put_inv hput with ⟨rfl, rfl⟩ | ⟨err, rfl, rfl | rfl⟩
    all_goals
      rw [Prog.runs_ret_iff] at hrest
      obtain ⟨rfl, rfl⟩ := hrest
    · exact .stored hs
    · exact .lost hs err
    · exact .applied hs err

/-- The outcomes of `storePreset`, by response and store. -/
inductive StoreOutcome (c : Context) (svc : Service) (w : ResponseWriter) (r : Request)
    (σ : Store) : Served → Store → Prop
  | refused (h : (storeCheck c r).Runs svc.Exec σ false σ) : StoreOutcome c svc w r σ (done w r) σ
  | granted {resp : Served} {σ' : Store} (h : Granted σ r)
      (hwrite : WriteOutcome c svc w r σ resp σ') : StoreOutcome c svc w r σ resp σ'

/-- The check changes nothing, and grants only what it may grant. -/
theorem storeCheck_inv (hσ : WellKeyed c σ) {granted : Bool}
    (h : (storeCheck c r).Runs svc.Exec σ granted σ') :
    σ' = σ ∧ (granted = true → Granted σ r) := by
  rw [storeCheck, checkIsNewOrOwner_eq, Prog.runs_call_iff] at h
  obtain ⟨r₁, σ₁, hcount₁, hrest⟩ := h
  obtain rfl := exec_count_state_eq hcount₁
  by_cases h₁ : absent r₁ = true
  · -- nobody has a preset of the name
    rw [if_pos h₁, Prog.runs_ret_iff] at hrest
    refine ⟨hrest.2, fun _ => .inl ?_⟩
    exact hσ.found_named_eq_zero.mp ((exec_count_inv rfl hcount₁).1 h₁)
  · rw [if_neg h₁, Prog.runs_call_iff] at hrest
    obtain ⟨r₂, σ₂, hcount₂, hret⟩ := hrest
    obtain rfl := exec_count_state_eq hcount₂
    obtain ⟨hgranted, rfl⟩ := Prog.runs_ret_iff.mp hret
    refine ⟨rfl, fun hpresent => .inr ?_⟩
    -- the owner has one
    by_contra hnot
    exact (exec_count_inv rfl hcount₂).2 (hgranted ▸ hpresent)
      (hσ.found_ownedNamed_eq_zero.mpr hnot)

/-- **`storePreset` on a well-keyed store.** -/
theorem storePreset_outcome (hσ : WellKeyed c σ)
    (h : (storePreset c w r).Runs svc.Exec σ resp σ') : StoreOutcome c svc w r σ resp σ' := by
  rw [storePreset_bind, Prog.runs_bind_iff] at h
  obtain ⟨granted, σ₁, hcheck, hrest⟩ := h
  obtain ⟨rfl, hgranted⟩ := storeCheck_inv hσ hcheck
  cases granted with
  | true => exact .granted (hgranted rfl) (storeGranted_outcome hrest)
  | false =>
    -- a refusal is answered as success is
    rw [if_neg Bool.false_ne_true, Prog.runs_ret_iff] at hrest
    obtain ⟨rfl, rfl⟩ := hrest
    exact .refused hcheck

/-! ### `removePreset` -/

/-- The outcomes of `removePreset`, by response and store. -/
inductive RemoveOutcome (w : ResponseWriter) (r : Request) (σ : Store) : Served → Store → Prop
  | failed (err : Error) (deleted : List Key)
      (h : ∀ k ∈ deleted, ∃ p, Has σ k p ∧
        Matches (r.formValue "shareId") (r.formValue "ownerId") (r.formValue "presetName") p) :
      RemoveOutcome w r σ (failed w err) (σ.eraseAll deleted)
  | removed (keys : List Key)
      (h : ∀ k, k ∈ keys ↔ ∃ p, Has σ k p ∧
        Matches (r.formValue "shareId") (r.formValue "ownerId") (r.formValue "presetName") p) :
      RemoveOutcome w r σ (done w r) (σ.eraseAll keys)

/-- The answer of a removal, by the reply to its deletion. -/
def removeReply (w : ResponseWriter) (r : Request) : Option Error → Served
  | some err => failed w err
  | none => done w r

/-- **`removePreset` on a well-keyed store**, by how its calls may go: its query fails,
or it deletes the keys of the presets that match, in one call when there are any. -/
theorem removePreset_inv {R : Store → (call : Call) → call.Reply → Store → Prop}
    (hR : ∀ σ call reply σ', R σ call reply σ' → svc.Exec σ call reply σ')
    (hσ : WellKeyed c σ) (h : (removePreset c w r).Runs R σ resp σ') :
    (∃ err, resp = failed w err ∧ σ' = σ) ∨
      ∃ keys : List Key,
        (∀ k, k ∈ keys ↔ ∃ p, Has σ k p ∧ Matches (r.formValue "shareId")
          (r.formValue "ownerId") (r.formValue "presetName") p) ∧
        ((keys = [] ∧ resp = done w r ∧ σ' = σ) ∨
          ∃ reply, R σ (.delete keys) reply σ' ∧ resp = removeReply w r reply) := by
  rw [removePreset_eq, Prog.runs_call_iff] at h
  obtain ⟨res, σ₁, hquery, hrest⟩ := h
  obtain ⟨rfl, hres⟩ := exec_runQuery_inv (hR _ _ _ _ hquery)
  unfold removeFound at hrest
  by_cases hdone : res.final = .done
  · -- the query yielded all its results, and their keys are those that match
    have hkeys : ∀ k, k ∈ res.results.map Prod.fst ↔ ∃ p, Has σ₁ k p ∧
        Matches (r.formValue "shareId") (r.formValue "ownerId") (r.formValue "presetName") p := by
      intro k
      rw [hres hdone, Service.results_of_not_distinct distinct_toRemove, hσ.mem_found_toRemove]
    refine .inr ⟨_, hkeys, ?_⟩
    rw [if_pos hdone] at hrest
    by_cases hne : res.results.map Prod.fst = []
    · -- there is nothing to delete, and no call
      rw [hne, removeDelete_nil, Prog.runs_ret_iff] at hrest
      exact .inl ⟨hne, hrest.1, hrest.2⟩
    · have hvalid : ∀ k ∈ res.results.map Prod.fst, k.valid = true := by
        intro k hk
        obtain ⟨p, hp, -⟩ := (hkeys k).mp hk
        exact (hσ.filed hp).valid
      rw [removeDelete_of_valid hne hvalid, Prog.runs_call_iff] at hrest
      obtain ⟨reply, σ₂, hdelete, hret⟩ := hrest
      refine .inr ⟨reply, ?_⟩
      cases reply <;>
      · rw [Prog.runs_ret_iff] at hret
        obtain ⟨rfl, rfl⟩ := hret
        exact ⟨hdelete, rfl⟩
  · -- the query failed: nothing is deleted
    rw [if_neg hdone, Prog.runs_ret_iff] at hrest
    exact .inl ⟨res.final, hrest⟩

theorem removePreset_outcome (hσ : WellKeyed c σ)
    (h : (removePreset c w r).Runs svc.Exec σ resp σ') : RemoveOutcome w r σ resp σ' := by
  rcases removePreset_inv (fun _ _ _ _ h => h) hσ h with
    ⟨err, rfl, rfl⟩ | ⟨keys, hkeys, ⟨rfl, rfl, rfl⟩ | ⟨reply, hdelete, rfl⟩⟩
  · exact .failed err [] (fun k hk => absurd hk (by simp))
  · exact .removed [] hkeys
  · -- a failed deletion may have deleted any of the keys
    rcases exec_delete_inv hdelete with ⟨rfl, rfl⟩ | ⟨err, deleted, rfl, hsub, rfl⟩
    · exact .removed keys hkeys
    · exact .failed err deleted (fun k hk => (hkeys k).mp (hsub hk))

/-! ### The readers -/

/-- **A count and then a query**, by how they may go. Neither changes anything. -/
theorem countThenQuery_inv {R : Store → (call : Call) → call.Reply → Store → Prop}
    (hR : ∀ σ call reply σ', R σ call reply σ' → svc.Exec σ call reply σ') {q q' : Query}
    {k : Except Error ℕ → Prog datastore Served} {f : ℕ → Replies EntityProto → Served}
    (herror : ∀ err, k (.error err) = .ret (failed w err))
    (hok : ∀ n, k (.ok n) = .call (I := datastore) (.runQuery q') fun res => .ret (f n res))
    (h : (Prog.call (I := datastore) (.count q) k).Runs R σ resp σ') :
    σ' = σ ∧ ((∃ err, R σ (.count q) (.error err) σ ∧ resp = failed w err) ∨
      ∃ n res, R σ (.count q) (.ok n) σ ∧ R σ (.runQuery q') res σ ∧ resp = f n res) := by
  obtain ⟨reply, σ₁, hcount, hrest⟩ := Prog.runs_call_iff.mp h
  obtain rfl := exec_count_state_eq (hR _ _ _ _ hcount)
  cases reply with
  | error err =>
    rw [herror, Prog.runs_ret_iff] at hrest
    obtain ⟨rfl, rfl⟩ := hrest
    exact ⟨rfl, .inl ⟨err, hcount, rfl⟩⟩
  | ok n =>
    rw [hok, Prog.runs_call_iff] at hrest
    obtain ⟨res, σ₂, hquery, hret⟩ := hrest
    obtain ⟨rfl, -⟩ := exec_runQuery_inv (hR _ _ _ _ hquery)
    obtain ⟨rfl, rfl⟩ := Prog.runs_ret_iff.mp hret
    exact ⟨rfl, .inr ⟨n, res, hcount, hquery, rfl⟩⟩

theorem loadPreset_inv (h : (loadPreset c w r).Runs svc.Exec σ resp σ') :
    σ' = σ ∧ ((∃ err, resp = failed w err) ∨
      ∃ res, svc.Exec σ (.runQuery (below c (r.formValue "shareId"))) res σ ∧
        resp = loaded w r res) := by
  rw [loadPreset_eq] at h
  obtain ⟨hsame, hcases⟩ := countThenQuery_inv (f := fun _ => loaded w r)
    (fun _ _ _ _ h => h) (fun _ => rfl) (fun _ => rfl) h
  refine ⟨hsame, ?_⟩
  rcases hcases with ⟨err, -, hfailed⟩ | ⟨n, res, -, hquery, hloaded⟩
  · exact .inl ⟨err, hfailed⟩
  · exact .inr ⟨res, hquery, hloaded⟩

theorem getShareIds_inv {R : Store → (call : Call) → call.Reply → Store → Prop}
    (hR : ∀ σ call reply σ', R σ call reply σ' → svc.Exec σ call reply σ')
    (h : (getShareIds w r).Runs R σ resp σ') :
    σ' = σ ∧ ((∃ err, R σ (.count distinctShareIds) (.error err) σ ∧ resp = failed w err) ∨
      ∃ n res, R σ (.count distinctShareIds) (.ok n) σ ∧
        R σ (.runQuery distinctShareIds) res σ ∧ resp = listed w r n res) := by
  rw [getShareIds_eq] at h
  exact countThenQuery_inv hR (fun _ => rfl) (fun _ => rfl) h

end PluginsDatastore
