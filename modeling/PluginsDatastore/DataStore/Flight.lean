import PluginsDatastore.Calls.Pool
import PluginsDatastore.DataStore.Evaluation

/-!
# Requests in flight

Requests that are handled at the same time are a `Pool` of the handlers'
programs, `flight`. Every call is answered and takes effect at once, and a
schedule says whose call is next.

A request in flight is in one of a few phases. `Phase` lists them, together with
what is known there: `W` once the check has granted a write, and `D` of the keys
that a removal has found. `Phase.fired` says what the next call does, so that
invariants are proved by cases on `Fired`; `flight_run` packs the induction over
schedules for invariants of the store, of the granted writes and of the found
keys. For schedules that are given, `fire_store`, `fire_write`, `fire_remove` and
`fire_delete` compute single calls.
-/

namespace PluginsDatastore

open Calls

variable {ι : Type} [DecidableEq ι]

/-- The requests `xs` in flight on the store `σ`, before any of their calls. -/
def flight (c : Context) (σ : Store) (xs : ι → Inquiry) : Pool datastore ι Store Served :=
  ⟨σ, fun i => (xs i).program c⟩

variable {c : Context} {svc : Service} {σ : Store} {x : Inquiry} {r : Request}
  {W W' : Prop} {D D' : List Key → Prop} {p : Prog datastore Served}

/-! ### Phases -/

/-- **Where the program of a request may be.** -/
inductive Phase (c : Context) (W : Prop) (D : List Key → Prop) :
    Inquiry → Prog datastore Served → Prop
  | start (x : Inquiry) : Phase c W D x (x.program c)
  | second (r : Request) : Phase c W D ⟨.store, r⟩ (storeSecond c {} r)
  | write (r : Request) (hs : (submitted r).shareId ≠ "") (hW : W) :
      Phase c W D ⟨.store, r⟩ (storeWrite c {} r)
  | delete (r : Request) (keys : List Key) (hne : keys ≠ [])
      (hvalid : ∀ k ∈ keys, k.valid = true) (hD : D keys) :
      Phase c W D ⟨.remove, r⟩ (removeDelete {} r keys)
  | query (x : Inquiry) (q : Query) (answer : Replies EntityProto → Served) :
      Phase c W D x (.call (I := datastore) (.runQuery q) fun res => .ret (answer res))
  | returned (x : Inquiry) (a : Served) : Phase c W D x (.ret a)

theorem Phase.imp (h : Phase c W D x p) (hW : W → W') (hD : ∀ keys, D keys → D' keys) :
    Phase c W' D' x p := by
  cases h with
  | start => exact .start x
  | second r => exact .second r
  | write r hs hw => exact .write r hs (hW hw)
  | delete r keys hne hvalid hd => exact .delete r keys hne hvalid (hD keys hd)
  | query _ q answer => exact .query x q answer
  | returned _ a => exact .returned x a

/-- **What the next call of a request does**: it reads, writes the submitted
preset, or deletes the keys that were found. After a write or a deletion the
request has been answered. -/
inductive Fired (c : Context) (svc : Service) (W : Prop) (D : List Key → Prop) (x : Inquiry)
    (σ : Store) : Prog datastore Served → Store → Prop
  | read {p : Prog datastore Served} (h : Phase c W D x p) : Fired c svc W D x σ p σ
  | write (hx : x.endpoint = .store) (hs : (submitted x.request).shareId ≠ "") (hW : W) :
      Fired c svc W D x σ (.ret (done {} x.request)) (written c svc x.request σ)
  | delete (hx : x.endpoint = .remove) (keys : List Key) (hD : D keys) :
      Fired c svc W D x σ (.ret (done {} x.request)) (σ.eraseAll keys)

theorem phase_storeGranted (h : (submitted r).shareId ≠ "" → W) :
    Phase c W D ⟨.store, r⟩ (storeGranted c {} r) := by
  unfold storeGranted
  by_cases hs : (submitted r).shareId = ""
  · rw [if_pos hs]
    exact .returned _ _
  · rw [if_neg hs]
    exact .write r hs (h hs)

theorem phase_removeDelete {keys : List Key} (hvalid : ∀ k ∈ keys, k.valid = true) (hD : D keys) :
    Phase c W D ⟨.remove, r⟩ (removeDelete {} r keys) := by
  by_cases hne : keys = []
  · rw [hne, removeDelete_nil]
    exact .returned _ _
  · exact .delete r keys hne hvalid hD

/-- A request's first call is a read. -/
theorem fired_start (hσ : WellKeyed c σ) {call : Call} {k : call.Reply → Prog datastore Served}
    (hx : x.program c = .call (I := datastore) call k)
    (hW : x.endpoint = .store → (submitted x.request).shareId ≠ "" → Granted σ x.request → W)
    (hD : x.endpoint = .remove → D (foundKeys c svc x.request σ)) :
    Fired c svc W D x σ (k (svc.exec σ call).1) (svc.exec σ call).2 := by
  -- the equation of each handler says what its first call is, and what follows it
  obtain ⟨endpoint, r⟩ := x
  cases endpoint with
  | load =>
    have hcall : loadPreset c {} r = .call (I := datastore) call k := hx
    rw [loadPreset_eq] at hcall
    cases hcall
    rw [Service.exec_count_state]
    refine .read ?_
    cases (svc.exec σ (.count (below c (r.formValue "shareId")).forCount)).1 with
    | error err => exact .returned _ _
    | ok count => exact .query _ _ _
  | getShareIds =>
    have hcall : getShareIds {} r = .call (I := datastore) call k := hx
    rw [getShareIds_eq] at hcall
    cases hcall
    rw [Service.exec_count_state]
    refine .read ?_
    cases (svc.exec σ (.count distinctShareIds)).1 with
    | error err => exact .returned _ _
    | ok count => exact .query _ _ _
  | store =>
    have hcall : storePreset c {} r = .call (I := datastore) call k := hx
    rw [storePreset_eq] at hcall
    cases hcall
    rw [Service.exec_count_state]
    refine .read ?_
    beta_reduce
    by_cases habsent : absent (svc.exec σ (.count (named c (submitted r).shareId
        (submitted r).presetName))).1 = true
    · -- the pair is free
      rw [if_pos habsent]
      exact phase_storeGranted fun hs => hW rfl hs (.inl ((absent_count hσ hs).mp habsent))
    · -- the second count is next
      rw [if_neg habsent]
      exact .second r
  | remove =>
    have hcall : removePreset c {} r = .call (I := datastore) call k := hx
    rw [removePreset_eq] at hcall
    cases hcall
    rw [Service.exec_runQuery_state]
    refine .read ?_
    cases hcases : svc.rejects (removalQuery c r) with
    | none =>
      -- the keys found are those found now
      rw [removeFound_answered hcases]
      exact phase_removeDelete hσ.valid_found (hD rfl)
    | some err =>
      rw [removeFound_rejected hcases]
      exact .returned _ _

/-- **The next call of a request in flight.** -/
theorem Phase.fired (h : Phase c W D x p) (hσ : WellKeyed c σ) {call : Call}
    {k : call.Reply → Prog datastore Served} (hp : p = .call (I := datastore) call k)
    (hW : x.endpoint = .store → (submitted x.request).shareId ≠ "" → Granted σ x.request → W)
    (hD : x.endpoint = .remove → D (foundKeys c svc x.request σ)) :
    Fired c svc W D x σ (k (svc.exec σ call).1) (svc.exec σ call).2 := by
  cases h with
  | start => exact fired_start hσ hp hW hD
  | second r =>
    cases hp
    rw [Service.exec_count_state]
    refine .read ?_
    beta_reduce
    by_cases hpresent : present (svc.exec σ (.count (ownedNamed c (submitted r).shareId
        (submitted r).ownerId (submitted r).presetName))).1 = true
    · -- the owner holds the pair
      rw [if_pos hpresent]
      exact phase_storeGranted fun hs => hW rfl hs (.inr ((present_count hσ hs).mp hpresent))
    · rw [if_neg hpresent]
      exact .returned _ _
  | write r hs hw =>
    cases hp
    exact .write rfl hs hw
  | delete r keys hne hvalid hd =>
    rw [removeDelete_of_valid hne hvalid] at hp
    cases hp
    exact .delete rfl keys hd
  | query _ q answer =>
    cases hp
    rw [Service.exec_runQuery_state]
    exact .read (.returned _ _)
  | returned _ a => exact absurd hp (by simp)

/-- The first call of every handler is a count or a query. -/
theorem program_starts_reading (c : Context) (x : Inquiry) :
    (∃ q k, x.program c = .call (I := datastore) (.count q) k) ∨
      ∃ q k, x.program c = .call (I := datastore) (.runQuery q) k := by
  obtain ⟨endpoint, r⟩ := x
  cases endpoint with
  | load => exact .inl ⟨_, _, loadPreset_eq⟩
  | store => exact .inl ⟨_, _, storePreset_eq⟩
  | remove => exact .inr ⟨_, _, removePreset_eq⟩
  | getShareIds => exact .inl ⟨_, _, getShareIds_eq⟩

/-- A request that is about to write has been granted the write. -/
theorem Phase.of_put {key : Key} {props : List Property}
    {k : (Call.put key props).Reply → Prog datastore Served}
    (h : Phase c W D x p) (hp : p = .call (I := datastore) (.put key props) k) :
    W ∧ (submitted x.request).shareId ≠ "" ∧
      key = presetKey c (submitted x.request).shareId (submitted x.request).presetName := by
  -- only the phase `write` makes such a call
  cases h with
  | start =>
    rcases program_starts_reading c x with ⟨q, k', hq⟩ | ⟨q, k', hq⟩
    · exact absurd (hq.symm.trans hp) (by simp)
    · exact absurd (hq.symm.trans hp) (by simp)
  | second r => exact absurd hp (by simp [storeSecond])
  | write r hs hW =>
    cases hp
    exact ⟨hW, hs, rfl⟩
  | delete r keys hne hvalid hD =>
    rw [removeDelete_of_valid hne hvalid] at hp
    exact absurd hp (by simp)
  | query _ q answer => exact absurd hp (by simp)
  | returned _ a => exact absurd hp (by simp)

/-- A request that is about to delete is a removal that has found the keys. -/
theorem Phase.of_delete {keys : List Key} {k : (Call.delete keys).Reply → Prog datastore Served}
    (h : Phase c W D x p) (hp : p = .call (I := datastore) (.delete keys) k) :
    x.endpoint = .remove ∧ D keys := by
  cases h with
  | start =>
    rcases program_starts_reading c x with ⟨q, k', hq⟩ | ⟨q, k', hq⟩
    · exact absurd (hq.symm.trans hp) (by simp)
    · exact absurd (hq.symm.trans hp) (by simp)
  | second r => exact absurd hp (by simp [storeSecond])
  | write r hs hW => exact absurd hp (by simp [storeWrite])
  | delete r keys hne hvalid hD =>
    rw [removeDelete_of_valid hne hvalid] at hp
    cases hp
    exact ⟨rfl, hD⟩
  | query _ q answer => exact absurd hp (by simp)
  | returned _ a => exact absurd hp (by simp)

/-! ### Invariants of schedules -/

/-- Every request is in one of its phases. -/
def Phases (c : Context) (xs : ι → Inquiry) (W : ι → Prop) (D : ι → List Key → Prop)
    (P : Pool datastore ι Store Served) : Prop :=
  ∀ i, Phase c (W i) (D i) (xs i) (P.prog i)

variable {xs : ι → Inquiry} {P : Pool datastore ι Store Served} {i : ι}

/-- What one call of a request in flight does to the store and to the request. -/
theorem Phases.fired {W : ι → Prop} {D : ι → List Key → Prop} (h : Phases c xs W D P)
    (hP : WellKeyed c P.state) {call : Call} {k : call.Reply → Prog datastore Served}
    (hi : P.prog i = .call (I := datastore) call k)
    (hW : (xs i).endpoint = .store → (submitted (xs i).request).shareId ≠ "" →
      Granted P.state (xs i).request → W i)
    (hD : (xs i).endpoint = .remove → D i (foundKeys c svc (xs i).request P.state)) :
    ∃ next τ, (P.step (I := datastore) svc.exec i call k).prog i = next ∧
      (P.step (I := datastore) svc.exec i call k).state = τ ∧
        Fired c svc (W i) (D i) (xs i) P.state next τ :=
  ⟨_, _, Pool.step_prog_self, rfl, (h i).fired hP hi hW hD⟩

/-- One call moves one request to its next phase, and what is known of the other
requests has to be kept. -/
theorem Phases.step {W W' : ι → Prop} {D D' : ι → List Key → Prop} (h : Phases c xs W D P)
    {call : Call} {k : call.Reply → Prog datastore Served} {next : Prog datastore Served}
    (hnext : (P.step (I := datastore) svc.exec i call k).prog i = next)
    (hphase : Phase c (W' i) (D' i) (xs i) next) (hW : ∀ j, W j → W' j)
    (hD : ∀ j keys, D j keys → D' j keys) :
    Phases c xs W' D' (P.step (I := datastore) svc.exec i call k) := by
  intro j
  by_cases hj : j = i
  · subst hj
    rw [hnext]
    exact hphase
  · -- the others are where they were
    rw [Pool.step_prog_of_ne hj]
    exact (h j).imp (hW j) (hD j)

/-- What is true of requests in flight on the store `σ₀` at any time: an
invariant `G` of the store, `W` of the granted writes and `D` of the found keys. -/
structure Kept (c : Context) (svc : Service) (xs : ι → Inquiry) (G : Store → Prop)
    (W : ι → Store → Prop) (D : ι → Store → List Key → Prop) : Prop where
  grant : ∀ σ i, WellKeyed c σ → G σ → (xs i).endpoint = .store →
    (submitted (xs i).request).shareId ≠ "" → Granted σ (xs i).request → W i σ
  collect : ∀ σ i, WellKeyed c σ → G σ → (xs i).endpoint = .remove →
    D i σ (foundKeys c svc (xs i).request σ)
  write : ∀ σ i, WellKeyed c σ → G σ → (xs i).endpoint = .store →
    (submitted (xs i).request).shareId ≠ "" → W i σ →
      G (written c svc (xs i).request σ) ∧
      (∀ j, W j σ → W j (written c svc (xs i).request σ)) ∧
      ∀ j keys, D j σ keys → D j (written c svc (xs i).request σ) keys
  delete : ∀ σ i keys, WellKeyed c σ → G σ → (xs i).endpoint = .remove → D i σ keys →
    G (σ.eraseAll keys) ∧ (∀ j, W j σ → W j (σ.eraseAll keys)) ∧
      ∀ j keys', D j σ keys' → D j (σ.eraseAll keys) keys'

/-- **The invariant rule for requests in flight.** -/
theorem flight_run {G : Store → Prop} {W : ι → Store → Prop} {D : ι → Store → List Key → Prop}
    (hkept : Kept c svc xs G W D) (hσ : WellKeyed c σ) (hG : G σ) (sched : List ι) :
    let P := (flight c σ xs).run svc.exec sched
    WellKeyed c P.state ∧ G P.state ∧ Phases c xs (W · P.state) (D · P.state) P := by
  refine Pool.run_induction (C := fun P => WellKeyed c P.state ∧ G P.state ∧
    Phases c xs (W · P.state) (D · P.state) P) ⟨hσ, hG, fun i => .start (xs i)⟩ ?_ sched
  intro P i call k hex hi
  obtain ⟨hP, hGP, hphases⟩ := hex
  obtain ⟨next, τ, hnext, hτ, hfired⟩ := hphases.fired hP hi (hkept.grant P.state i hP hGP)
    (hkept.collect P.state i hP hGP)
  rw [hτ]
  -- a read changes nothing; what is kept under a write and a deletion is `hkept`
  cases hfired with
  | read h => exact ⟨hP, hGP, hphases.step hnext h (fun _ => id) (fun _ _ => id)⟩
  | write hx hs hW =>
    obtain ⟨hG', hW', hD'⟩ := hkept.write P.state i hP hGP hx hs hW
    exact ⟨hP.written hs, hG', hphases.step hnext (.returned _ _) hW' hD'⟩
  | delete hx keys hD =>
    obtain ⟨hG', hW', hD'⟩ := hkept.delete P.state i keys hP hGP hx hD
    exact ⟨hP.eraseAll keys, hG', hphases.step hnext (.returned _ _) hW' hD'⟩

/-- **Stores stay well-keyed**, whatever is in flight. -/
theorem flight_wellKeyed (svc : Service) (hσ : WellKeyed c σ) (xs : ι → Inquiry) (sched : List ι) :
    WellKeyed c ((flight c σ xs).run svc.exec sched).state := by
  have hkept : Kept c svc xs (fun _ => True) (fun _ _ => True) (fun _ _ _ => True) :=
    ⟨fun _ _ _ _ _ _ _ => trivial, fun _ _ _ _ _ => trivial,
      fun _ _ _ _ _ _ _ => ⟨trivial, fun _ _ => trivial, fun _ _ _ => trivial⟩,
      fun _ _ _ _ _ _ _ => ⟨trivial, fun _ _ => trivial, fun _ _ _ => trivial⟩⟩
  exact (flight_run hkept hσ trivial sched).1

/-! ### Single calls -/

/-- A request that a schedule does not name is where it started. -/
theorem flight_prog_of_notMem {sched : List ι} (h : i ∉ sched) :
    ((flight c σ xs).run svc.exec sched).prog i = (xs i).program c :=
  Pool.run_prog_of_notMem h

/-- The check of a store for a free pair grants it. -/
theorem fire_store (svc : Service) (hP : WellKeyed c P.state)
    (hi : P.prog i = storePreset c {} r)
    (hs : (submitted r).shareId ≠ "")
    (hfree : ¬ Taken P.state (submitted r).shareId (submitted r).presetName) :
    (P.fire svc.exec i).state = P.state ∧ (P.fire svc.exec i).prog i = storeWrite c {} r := by
  rw [Pool.fire_call (hi.trans storePreset_eq), Pool.step_state, Pool.step_prog_self,
    Service.exec_count_state, if_pos ((absent_count hP hs).mpr hfree), storeGranted, if_neg hs]
  exact ⟨rfl, rfl⟩

theorem fire_write (svc : Service) (hi : P.prog i = storeWrite c {} r) (hP : P.state = σ) :
    (P.fire svc.exec i).state = written c svc r σ := by
  rw [Pool.fire_call hi, ← hP]
  rfl

/-- The query of a removal finds what matches it. -/
theorem fire_remove (svc : Service) (hi : P.prog i = removePreset c {} r)
    (hs : r.formValue "shareId" ≠ "") :
    (P.fire svc.exec i).state = P.state ∧
      (P.fire svc.exec i).prog i = removeDelete {} r (foundKeys c svc r P.state) := by
  rw [Pool.fire_call (hi.trans removePreset_eq), Pool.step_state, Pool.step_prog_self,
    Service.exec_runQuery_state, removeFound_answered (rejects_removalQuery hs)]
  exact ⟨rfl, rfl⟩

theorem fire_delete (svc : Service) {keys : List Key} (hi : P.prog i = removeDelete {} r keys)
    (hP : P.state = σ) (hne : keys ≠ []) (hvalid : ∀ k ∈ keys, k.valid = true) :
    (P.fire svc.exec i).state = σ.eraseAll keys := by
  rw [removeDelete_of_valid hne hvalid] at hi
  rw [Pool.fire_call hi, ← hP]
  rfl

/-- **Two checks for a free pair are both granted** when neither request has
written yet. -/
theorem run_checks (svc : Service) {i j : ι} {r' : Request} (hP : WellKeyed c P.state)
    (hij : i ≠ j) (hi : P.prog i = storePreset c {} r) (hj : P.prog j = storePreset c {} r')
    (hs : (submitted r).shareId ≠ "") (hshare : (submitted r').shareId = (submitted r).shareId)
    (hname : (submitted r').presetName = (submitted r).presetName)
    (hfree : ¬ Taken P.state (submitted r).shareId (submitted r).presetName) :
    (P.run svc.exec [i, j]).state = P.state ∧
      (P.run svc.exec [i, j]).prog i = storeWrite c {} r ∧
      (P.run svc.exec [i, j]).prog j = storeWrite c {} r' := by
  obtain ⟨hstate, hprog⟩ := fire_store svc hP hi hs hfree
  -- the first check has changed nothing, so the pair is free for the second
  have hj' : (P.fire svc.exec i).prog j = storePreset c {} r' := by
    rw [Pool.fire_prog_of_ne hij.symm, hj]
  obtain ⟨hstate', hprog'⟩ := fire_store svc (by rw [hstate]; exact hP) hj'
    (by rw [hshare]; exact hs) (by rw [hstate, hshare, hname]; exact hfree)
  refine ⟨hstate'.trans hstate, ?_, hprog'⟩
  exact (Pool.fire_prog_of_ne hij).trans hprog

end PluginsDatastore
