import PluginsDatastore.Calls.Interleaving
import PluginsDatastore.DataStore.Flight
import PluginsDatastore.DataStore.Ownership

/-!
# Requests in flight on a service that may fail

`Flight.lean` interleaves requests whose calls all succeed. Here any call of any
request may fail, in every way `Service.Exec` allows, and the interleavings are
those of `Pool.Fires`. The phases of a request are the same; `Phase.exec` says
what its next call may do, and `Change` is all that this can be to the store.

`flight_safe` collects what holds in every state such an interleaving reaches:
whatever fails, every entity is a whole preset that some request submitted, in
its place; a share id and a name have one preset; and a preset that no request
names is untouched. `overwrites_own` is about the owners: no write replaces another
owner's preset when all stores for its pair come from one owner.
-/

namespace PluginsDatastore

open Calls

variable {ι : Type} [DecidableEq ι]

variable {c : Context} {svc : Service} {σ σ' : Store} {x : Inquiry} {r : Request} {k : Key}
  {W : Prop} {D : List Key → Prop} {p : Prog datastore Served}

/-- The keys are those of the presets that a removal is to remove. -/
def AllMatching (σ : Store) (r : Request) (keys : List Key) : Prop :=
  ∀ k, k ∈ keys ↔ ∃ p, Has σ k p ∧
    Matches (r.formValue "shareId") (r.formValue "ownerId") (r.formValue "presetName") p

/-! ### What one call may do -/

/-- **What the next call of a request may do**, when it may fail: nothing but move
the request on, write the submitted preset, or delete some of the keys that were
found. After a write or a deletion the request has been answered. -/
inductive Moved (c : Context) (svc : Service) (W : Prop) (D : List Key → Prop) (x : Inquiry)
    (σ : Store) : Prog datastore Served → Store → Prop
  | read {p : Prog datastore Served} (h : Phase c W D x p) : Moved c svc W D x σ p σ
  | write (hx : x.endpoint = .store) (hs : (submitted x.request).shareId ≠ "") (hW : W)
      (a : Served) : Moved c svc W D x σ (.ret a) (written c svc x.request σ)
  | delete (hx : x.endpoint = .remove) (keys deleted : List Key) (hD : D keys)
      (hsub : deleted ⊆ keys) (a : Served) : Moved c svc W D x σ (.ret a) (σ.eraseAll deleted)

/-- A request's first call reads. -/
theorem moved_start (hσ : WellKeyed c σ) {call : Call} {next : call.Reply → Prog datastore Served}
    (hx : x.program c = .call (I := datastore) call next) {reply : call.Reply}
    (hR : svc.Exec σ call reply σ')
    (hW : x.endpoint = .store → (submitted x.request).shareId ≠ "" → Granted σ x.request → W)
    (hD : x.endpoint = .remove → ∀ keys, AllMatching σ x.request keys → D keys) :
    Moved c svc W D x σ (next reply) σ' := by
  obtain ⟨endpoint, r⟩ := x
  cases endpoint with
  | load =>
    have hcall : loadPreset c {} r = .call (I := datastore) call next := hx
    rw [loadPreset_eq] at hcall
    cases hcall
    obtain rfl := exec_count_state_eq hR
    refine .read ?_
    cases reply with
    | error err => exact .returned _ _
    | ok count => exact .query _ _ _
  | getShareIds =>
    have hcall : getShareIds {} r = .call (I := datastore) call next := hx
    rw [getShareIds_eq] at hcall
    cases hcall
    obtain rfl := exec_count_state_eq hR
    refine .read ?_
    cases reply with
    | error err => exact .returned _ _
    | ok count => exact .query _ _ _
  | store =>
    have hcall : storePreset c {} r = .call (I := datastore) call next := hx
    rw [storePreset_eq] at hcall
    cases hcall
    obtain rfl := exec_count_state_eq hR
    refine .read ?_
    beta_reduce
    by_cases habsent : absent reply = true
    · -- a count that failed is not believed, so the pair is free
      rw [if_pos habsent]
      refine phase_storeGranted fun hs => hW rfl hs (.inl ?_)
      exact hσ.found_named_eq_zero.mp ((exec_count_inv rfl hR).1 habsent)
    · rw [if_neg habsent]
      exact .second r
  | remove =>
    have hcall : removePreset c {} r = .call (I := datastore) call next := hx
    rw [removePreset_eq] at hcall
    cases hcall
    obtain ⟨rfl, hres⟩ := exec_runQuery_inv hR
    refine .read ?_
    unfold removeFound
    by_cases hdone : reply.final = .done
    · -- the query has yielded all that matches
      rw [if_pos hdone]
      have hkeys : AllMatching σ' r (reply.results.map Prod.fst) := by
        intro k
        rw [hres hdone, Service.results_of_not_distinct distinct_toRemove, hσ.mem_found_toRemove]
      refine phase_removeDelete ?_ (hD rfl _ hkeys)
      intro k hk
      obtain ⟨p, hp, -⟩ := (hkeys k).mp hk
      exact (hσ.filed hp).valid
    · rw [if_neg hdone]
      exact .returned _ _

/-- **The next call of a request in flight**, when it may fail. -/
theorem Phase.exec (h : Phase c W D x p) (hσ : WellKeyed c σ) {call : Call}
    {next : call.Reply → Prog datastore Served} (hp : p = .call (I := datastore) call next)
    {reply : call.Reply} (hR : svc.Exec σ call reply σ')
    (hW : x.endpoint = .store → (submitted x.request).shareId ≠ "" → Granted σ x.request → W)
    (hD : x.endpoint = .remove → ∀ keys, AllMatching σ x.request keys → D keys) :
    Moved c svc W D x σ (next reply) σ' := by
  cases h with
  | start => exact moved_start hσ hp hR hW hD
  | second r =>
    cases hp
    obtain rfl := exec_count_state_eq hR
    refine .read ?_
    beta_reduce
    by_cases hpresent : present reply = true
    · -- the owner holds the pair
      rw [if_pos hpresent]
      refine phase_storeGranted fun hs => hW rfl hs (.inr ?_)
      by_contra hnot
      exact (exec_count_inv rfl hR).2 hpresent (hσ.found_ownedNamed_eq_zero.mpr hnot)
    · rw [if_neg hpresent]
      exact .returned _ _
  | write r hs hw =>
    cases hp
    rcases exec_put_inv hR with ⟨rfl, rfl⟩ | ⟨err, rfl, rfl | rfl⟩
    · exact .write rfl hs hw _
    · exact .read (.returned _ _) -- the write is lost
    · exact .write rfl hs hw _
  | delete r keys hne hvalid hd =>
    rw [removeDelete_of_valid hne hvalid] at hp
    cases hp
    rcases exec_delete_inv hR with ⟨rfl, rfl⟩ | ⟨err, deleted, rfl, hsub, rfl⟩
    · exact .delete rfl keys keys hd (List.Subset.refl _) _
    · exact .delete rfl keys deleted hd hsub _
  | query _ q answer =>
    cases hp
    obtain ⟨rfl, -⟩ := exec_runQuery_inv hR
    exact .read (.returned _ _)
  | returned _ a => exact absurd hp (by simp)

/-! ### What requests in flight may do to the store -/

/-- The program of a request is its endpoint's handler. -/
theorem Inquiry.program_eq {e : Endpoint} (h : x.endpoint = e) :
    x.program c = e.handler c {} x.request := by
  rw [Inquiry.program, h]

/-- **All that a call of a request may do to the store**, in any interleaving. -/
inductive Change (c : Context) (svc : Service) (W : Prop) (D : List Key → Prop) (x : Inquiry)
    (σ : Store) : Store → Prop
  | none : Change c svc W D x σ σ
  | write (hx : x.endpoint = .store) (hs : (submitted x.request).shareId ≠ "") (hW : W) :
      Change c svc W D x σ (written c svc x.request σ)
  | delete (hx : x.endpoint = .remove) (keys deleted : List Key) (hD : D keys)
      (hsub : deleted ⊆ keys) : Change c svc W D x σ (σ.eraseAll deleted)

theorem WellKeyed.change (hσ : WellKeyed c σ) (h : Change c svc W D x σ σ') :
    WellKeyed c σ' := by
  cases h with
  | none => exact hσ
  | write _ hs _ => exact hσ.written hs
  | delete _ _ deleted _ _ => exact hσ.eraseAll deleted

/-- What is true of requests in flight at any time, when their calls may fail: an
invariant `G` of the store, `W` of the granted writes and `D` of the found keys. All
three survive every change. -/
structure Upheld (c : Context) (svc : Service) (xs : ι → Inquiry) (G : Store → Prop)
    (W : ι → Store → Prop) (D : ι → Store → List Key → Prop) : Prop where
  grant : ∀ σ i, WellKeyed c σ → G σ → (xs i).endpoint = .store →
    (submitted (xs i).request).shareId ≠ "" → Granted σ (xs i).request → W i σ
  collect : ∀ σ i, WellKeyed c σ → G σ → (xs i).endpoint = .remove →
    ∀ keys, AllMatching σ (xs i).request keys → D i σ keys
  change : ∀ σ σ' i, WellKeyed c σ → G σ → Change c svc (W i σ) (D i σ) (xs i) σ σ' →
    G σ' ∧ (∀ j, W j σ → W j σ') ∧ ∀ j keys, D j σ keys → D j σ' keys

variable {xs : ι → Inquiry} {sched : List ι} {Q : Pool datastore ι Store Served}
  {G : Store → Prop} {Ws : ι → Store → Prop} {Ds : ι → Store → List Key → Prop} {σ₀ : Store}

omit [DecidableEq ι] in
/-- **Requests in flight by rely and guarantee.** -/
theorem Upheld.relyGuarantee (h : Upheld c svc xs G Ws Ds) :
    Pool.RelyGuarantee (I := datastore) svc.Exec (fun σ => WellKeyed c σ ∧ G σ)
      (fun i σ σ' => Change c svc (Ws i σ) (Ds i σ) (xs i) σ σ')
      (fun i σ p => Phase c (Ws i σ) (Ds i σ) (xs i) p) where
  guarantee := by
    intro i σ call next reply σ' hex hphase hR
    obtain ⟨hσ, hG⟩ := hex
    have hmoved := hphase.exec hσ rfl hR (h.grant σ i hσ hG) (h.collect σ i hσ hG)
    -- the phase after the call, for the state the call left
    generalize next reply = p at hmoved ⊢
    cases hmoved with
    | read hphase' => exact ⟨.none, hphase'⟩
    | write hx hs hW a => exact ⟨.write hx hs hW, .returned _ _⟩
    | delete hx keys deleted hD hsub a => exact ⟨.delete hx keys deleted hD hsub, .returned _ _⟩
  inv := fun i σ σ' hex hchange =>
    ⟨hex.1.change hchange, (h.change σ σ' i hex.1 hex.2 hchange).1⟩
  stable := by
    intro i j σ σ' p _ hex hchange hphase
    obtain ⟨-, hW, hD⟩ := h.change σ σ' i hex.1 hex.2 hchange
    exact hphase.imp (hW j) (hD j)

/-- The invariant rule for requests in flight, any call of which may fail. -/
theorem Upheld.trace (h : Upheld c svc xs G Ws Ds)
    (htrace : Trace (Pool.Fires (I := datastore) svc.Exec) (flight c σ₀ xs) sched Q)
    (hσ : WellKeyed c σ₀) (hG : G σ₀) :
    WellKeyed c Q.state ∧ G Q.state ∧
      ∀ i, Phase c (Ws i Q.state) (Ds i Q.state) (xs i) (Q.prog i) := by
  obtain ⟨hex, hphases⟩ := h.relyGuarantee.trace htrace ⟨hσ, hG⟩ (fun i => .start (xs i))
  exact ⟨hex.1, hex.2, hphases⟩

omit [DecidableEq ι] in
/-- Nothing need be known for the store to stay well-keyed. -/
theorem upheld_true : Upheld c svc xs (fun _ => True) (fun _ _ => True) (fun _ _ _ => True) :=
  ⟨fun _ _ _ _ _ _ _ => trivial, fun _ _ _ _ _ _ _ => trivial,
    fun _ _ _ _ _ _ => ⟨trivial, fun _ => id, fun _ _ => id⟩⟩

/-- **Stores stay well-keyed**, whatever is in flight and whatever fails. -/
theorem WellKeyed.interleaved (hσ : WellKeyed c σ₀)
    (h : Trace (Pool.Fires (I := datastore) svc.Exec) (flight c σ₀ xs) sched Q) :
    WellKeyed c Q.state :=
  (upheld_true.trace h hσ trivial).1

/-! ### Safety of the store -/

/-- A request names the preset: it stores one under the same share id and name, or
removes presets of its share id and name, or of its share id and every name. -/
def Names (x : Inquiry) (p : SharedPreset) : Prop :=
  x.request.formValue "shareId" = p.shareId ∧
    ((x.endpoint = .store ∧ x.request.formValue "presetName" = p.presetName) ∨
      (x.endpoint = .remove ∧ (x.request.formValue "presetName" ≠ "" →
        x.request.formValue "presetName" = p.presetName)))

/-- The key is a place of presets that a removal covers, whoever owns what is there. -/
def Covered (c : Context) (r : Request) (k : Key) : Prop :=
  ∃ p : SharedPreset, Filed c k p ∧ p.shareId = r.formValue "shareId" ∧
    (r.formValue "presetName" ≠ "" → p.presetName = r.formValue "presetName")

/-- The keys found by a removal are keys that it covers. -/
theorem AllMatching.covered (hσ : WellKeyed c σ) {keys : List Key} (h : AllMatching σ r keys) :
    ∀ k ∈ keys, Covered c r k := by
  intro k hk
  obtain ⟨p, hp, hmatches⟩ := (h k).mp hk
  exact ⟨p, hσ.filed hp, hmatches.shareId, hmatches.presetName⟩

/-- A preset stays where it is under the change of a request that does not name it. -/
theorem Change.has (hσ : WellKeyed c σ) {p : SharedPreset}
    (h : Change c svc W (fun keys => ∀ k ∈ keys, Covered c x.request k) x σ σ')
    (hp : Has σ k p) (hx : ¬ Names x p) : Has σ' k p := by
  cases h with
  | none => exact hp
  | write hstore hs _ =>
    refine has_written.mpr (.inr ⟨?_, hp⟩)
    rintro rfl
    -- what a write replaces is of the pair it writes
    obtain ⟨hshare, hname⟩ := hσ.replaced hs hp
    exact hx ⟨hshare.symm, .inl ⟨hstore, hname.symm⟩⟩
  | delete hremove keys deleted hcovered hsub =>
    refine has_eraseAll.mpr ⟨hp, fun hk => ?_⟩
    -- a deleted key is a place of presets the removal covers, and of `p`
    obtain ⟨p', hp', hshare, hname⟩ := hcovered k (hsub hk)
    obtain ⟨hshare', hname'⟩ := (hσ.filed hp).unique hp'
    refine hx ⟨by rw [hshare', hshare], .inr ⟨hremove, fun hne => ?_⟩⟩
    rw [hname', hname hne]

/-- A preset that is there after a change was there before, or is the one submitted. -/
theorem Change.has_before {p : SharedPreset} (h : Change c svc W D x σ σ') (hp : Has σ' k p) :
    Has σ k p ∨ x.endpoint = .store ∧ submitted x.request = p := by
  cases h with
  | none => exact .inl hp
  | write hstore _ _ =>
    rcases has_written.mp hp with ⟨-, rfl⟩ | ⟨-, hp⟩
    · exact .inr ⟨hstore, rfl⟩
    · exact .inl hp
  | delete _ _ deleted _ _ => exact .inl (has_eraseAll.mp hp).1

omit [DecidableEq ι] in
/-- Presets come from stores, and go by requests that name them. -/
theorem upheld_named (c : Context) (svc : Service) (σ₀ : Store) (xs : ι → Inquiry) :
    Upheld c svc xs
      (fun τ => (∀ k p, Has τ k p → Has σ₀ k p ∨ ∃ i, (xs i).endpoint = .store ∧
          submitted (xs i).request = p) ∧
        ∀ k p, Has σ₀ k p → (∀ i, ¬ Names (xs i) p) → Has τ k p)
      (fun _ _ => True) (fun i _ keys => ∀ k ∈ keys, Covered c (xs i).request k) where
  grant := fun _ _ _ _ _ _ _ => trivial
  collect := fun _ _ hσ _ _ _ hkeys => hkeys.covered hσ
  change := by
    intro τ τ' i hτ hex hchange
    obtain ⟨hsource, hstay⟩ := hex
    refine ⟨⟨fun k p hp => ?_, fun k p hp hnames => ?_⟩, fun _ => id, fun _ _ => id⟩
    · rcases hchange.has_before hp with hp | hstored
      · exact hsource k p hp
      · exact .inr ⟨i, hstored⟩
    · exact hchange.has hτ (hstay k p hp hnames) (hnames i)

/-- **Safety of the store in flight.** Any number of requests of all kinds are in
flight on a reachable store, interleaved in any way, and any of their calls may
fail. In every state reached, every entity is a whole preset in its place, which
was stored before or is exactly what some store in flight submitted; the presets of
one share id and one name are one, if there is a name; and every preset that no
request names is where it was. -/
theorem flight_safe (c : Context) (svc : Service) (σ : Store) (hσ : Reachable c svc σ)
    (xs : ι → Inquiry) (sched : List ι) (Q : Pool datastore ι Store Served)
    (h : Trace (Pool.Fires (I := datastore) svc.Exec) (flight c σ xs) sched Q) :
    (∀ k props, Q.state.get k = some props → ∃ p : SharedPreset, props = p.save ∧ Filed c k p ∧
      (Has σ k p ∨ ∃ i, (xs i).endpoint = .store ∧ submitted (xs i).request = p)) ∧
    (∀ k k' p p', Has Q.state k p → Has Q.state k' p' → p.shareId = p'.shareId →
      p.presetName = p'.presetName → p.presetName ≠ "" → k = k' ∧ p = p') ∧
    (∀ k p, Has σ k p → (∀ i, ¬ Names (xs i) p) → Has Q.state k p) := by
  obtain ⟨hQ, ⟨hsource, hstay⟩, -⟩ := (upheld_named c svc σ xs).trace h hσ.wellKeyed
    ⟨fun k p hp => .inl hp, fun k p hp _ => hp⟩
  refine ⟨?_, ?_, hstay⟩
  · intro k props hget
    obtain ⟨p, rfl, hp, hfiled⟩ := hQ.exists_has hget
    exact ⟨p, rfl, hfiled, hsource k p hp⟩
  · intro k k' p p' hp hp' hs hn hne
    obtain rfl := hQ.key_unique hp hp' hs hn hne
    exact ⟨rfl, hp.unique hp'⟩

/-- Bob removes and stores a preset of another name at once, and the first count of the
store fails. Ann's preset is untouched. -/
theorem flight_safe_ann : ∃ Q, Trace (Pool.Fires (I := datastore) Service.inKeyOrder.Exec)
    (flight Sample.context (Sample.after [⟨.store, Sample.ann⟩])
      (Sample.withBob ⟨.remove, Sample.bobTall⟩))
      [false, true, false] Q ∧
    Has Q.state (presetKey Sample.context "team" "wide") (submitted Sample.ann) := by
  have htrace : ∃ Q, Trace (Pool.Fires (I := datastore) Service.inKeyOrder.Exec)
      (flight Sample.context (Sample.after [⟨.store, Sample.ann⟩])
        (Sample.withBob ⟨.remove, Sample.bobTall⟩))
        [false, true, false] Q :=
    ⟨_, .cons (.call storePreset_eq (.countFails _ _ (.new "timeout")))
      (.cons (.call (removePreset_eq (c := Sample.context) (r := Sample.bobTall)) (.ok _ _))
        (.cons (.call rfl (.ok _ _)) (.nil _)))⟩
  obtain ⟨Q, hQ⟩ := htrace
  refine ⟨Q, hQ, ?_⟩
  refine (flight_safe Sample.context .inKeyOrder _ (Sample.reachable_after _) _ _ Q hQ).2.2 _ _ ?_
    ?_
  · show KeyedStore.get _ _ = _
    decide
  · -- nobody names it
    intro j hnames
    cases j with
    | true =>
      obtain ⟨-, ⟨hstore, -⟩ | ⟨-, hname⟩⟩ := hnames
      · exact absurd hstore (by decide)
      · exact absurd (hname (by decide)) (by decide)
    | false =>
      obtain ⟨-, ⟨-, hname⟩ | ⟨hremove, -⟩⟩ := hnames
      · exact absurd hname (by decide)
      · exact absurd hremove (by decide)

/-! ### Owners -/

omit [DecidableEq ι] in
/-- Once a store is granted, its pair is held by nobody else, since nobody else
writes it. -/
theorem upheld_nobodyElse (c : Context) (svc : Service) (xs : ι → Inquiry) (i : ι)
    (hone : ∀ j, (xs j).endpoint = .store →
      (xs j).request.formValue "shareId" = (xs i).request.formValue "shareId" →
      (xs j).request.formValue "presetName" = (xs i).request.formValue "presetName" →
        (xs j).request.formValue "ownerId" = (xs i).request.formValue "ownerId") :
    Upheld c svc xs (fun _ => True)
      (fun j τ => (xs i).request.formValue "presetName" ≠ "" → j = i →
        ∀ o, Holds τ (submitted (xs i).request).shareId (submitted (xs i).request).presetName o →
          o = (submitted (xs i).request).ownerId)
      (fun _ _ _ => True) where
  grant := by
    intro τ j hτ _ _ _ hgranted hn hj o ho
    subst hj
    -- the check found the pair free, or held by the owner, and then by nobody else
    rcases hgranted with hfree | hown
    · exact absurd ⟨o, ho⟩ hfree
    · exact hτ.owner_unique hn ho hown
  collect := fun _ _ _ _ _ _ _ => trivial
  change := by
    intro τ τ' j hτ _ hchange
    refine ⟨trivial, fun i' hW hn hi' o ho => ?_, fun _ _ => id⟩
    cases hchange with
    | none => exact hW hn hi' o ho
    | write hstore hs _ =>
      rcases holds_written ho with ⟨hshare, hname, rfl⟩ | ho
      · exact hone j hstore hshare hname
      · exact hW hn hi' o ho
    | delete _ _ deleted _ _ => exact hW hn hi' o (Holds.of_eraseAll ho)

/-- **Writes replace what is their owner's.** When all stores in flight for the
pair of a request come from its owner, its write never replaces an entity of
another owner, whatever else is in flight, interleaved in any way, and whichever
calls fail. -/
theorem overwrites_own (c : Context) (svc : Service) (σ : Store) (hσ : Reachable c svc σ)
    (xs : ι → Inquiry) (i : ι)
    (hone : ∀ j, (xs j).endpoint = .store →
      (xs j).request.formValue "shareId" = (xs i).request.formValue "shareId" →
      (xs j).request.formValue "presetName" = (xs i).request.formValue "presetName" →
        (xs j).request.formValue "ownerId" = (xs i).request.formValue "ownerId")
    (sched : List ι) (Q : Pool datastore ι Store Served)
    (h : Trace (Pool.Fires (I := datastore) svc.Exec) (flight c σ xs) sched Q)
    (key : Key) (props : List Property) (k : Except Error Key → Prog datastore Served)
    (hput : Q.prog i = .call (I := datastore) (.put key props) k) (old : List Property)
    (hold : Q.state.get (svc.putKey key Q.state) = some old) :
    indexedValue old "OwnerId" = some ((xs i).request.formValue "ownerId") := by
  obtain ⟨hQ, -, hphases⟩ := (upheld_nobodyElse c svc xs i hone).trace h hσ.wellKeyed trivial
  obtain ⟨hW, hs, rfl⟩ := (hphases i).of_put hput
  obtain ⟨p, rfl, hp, hfiled⟩ := hQ.exists_has hold
  obtain ⟨hshare, hname⟩ := @WellKeyed.replaced c svc Q.state (xs i).request hQ hs p hp
  by_cases hn : (submitted (xs i).request).presetName = ""
  · -- without a name the write is to an unused key
    exact absurd (KeyedStore.mem_used hp) (writtenKey_unnamed_notMem hn)
  · rw [SharedPreset.indexedValue_ownerId, hW hn rfl p.ownerId ⟨_, p, hp, hshare, hname, rfl⟩]
    rfl

/-- Ann's second store is about to replace her own preset. The first counts of hers and of
Bob's store of another name have been answered, and his has been written. -/
theorem overwrites_own_ann : ∃ Q, Trace (Pool.Fires (I := datastore) Service.inKeyOrder.Exec)
    (flight Sample.context (Sample.after [⟨.store, Sample.ann⟩])
      (Sample.withBob ⟨.store, Sample.ann⟩))
      [true, false, false, true] Q ∧
    Q.prog true = storeWrite Sample.context {} Sample.ann ∧
    indexedValue (submitted Sample.ann).save "OwnerId" = some "ann" := by
  have htrace : ∃ Q, Trace (Pool.Fires (I := datastore) Service.inKeyOrder.Exec)
      (flight Sample.context (Sample.after [⟨.store, Sample.ann⟩])
        (Sample.withBob ⟨.store, Sample.ann⟩))
        [true, false, false, true] Q ∧ Q.prog true = storeWrite Sample.context {} Sample.ann ∧
      Q.state.get (presetKey Sample.context "team" "wide") = some (submitted Sample.ann).save :=
    ⟨_, .cons (.call storePreset_eq (.ok _ _))
      (.cons (.call (storePreset_eq (c := Sample.context) (r := Sample.bobTall)) (.ok _ _))
      (.cons (.call rfl (.ok _ _)) (.cons (.call rfl (.ok _ _)) (.nil _)))), by rfl, by decide⟩
  obtain ⟨Q, hQ, hprog, hold⟩ := htrace
  refine ⟨Q, hQ, hprog, ?_⟩
  refine overwrites_own Sample.context .inKeyOrder _ (Sample.reachable_after _) _ true ?_ _ Q hQ
    _ _ _ hprog (submitted Sample.ann).save hold
  intro j _ _ hname
  cases j with
  | true => rfl
  | false => exact absurd hname (by decide)

end PluginsDatastore
