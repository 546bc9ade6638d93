import PluginsDatastore.Appengine.Conforming

/-!
# Iterating against a conforming service

An iterator that a conforming service answers yields exactly the results in the
window of the query's cursors, offset and limit, or a first part of them and then,
for ever, the error that the service failed with (`run_spec`); no answer is taken
for one that breaks the protocol. A cursor taken on the way stands where the iterator
does (`cursor_spec`).

The invariant is `Ready`: the iterator holds an answer that `Fits`, and the service
goes on from the end of it. `Live` adds where the iterator stands, which one call of
`next` moves by one result (`Live.next`).
-/

namespace PluginsDatastore

open Calls

variable {γ : Type} {E : Error → Prop} {At : γ → ℕ → Prop} {rs : List RawEntity}

/-- What `Iterator.next` makes of an entity. -/
def RawEntity.read (e : RawEntity) : Except NextError EntityProto :=
  (RpcIterator.readKey e).map fun k => (k, e.props)

/-- What the client subtracts from its limit leaves enough. -/
theorem Allows.sub {limit : Int32} {left : Option ℕ} {m : ℕ} (h : Allows limit left)
    (hm : ∀ l, left = some l → m ≤ l) :
    ¬ (0 ≤ limit ∧ (if 0 ≤ limit then limit - Int32.ofNat m else limit) < 0) ∧
      Allows (if 0 ≤ limit then limit - Int32.ofNat m else limit) (left.map (· - m)) := by
  cases left with
  | none =>
    have hneg : ¬ (0 : Int32) ≤ limit := by
      rw [Int32.zero_le_iff]
      exact not_le.mpr h
    rw [if_neg hneg]
    exact ⟨fun hboth => hneg hboth.1, h⟩
  | some l =>
    have hl : (l : ℤ) ≤ limit.toInt := h
    have hml := hm l rfl
    have hlimit := limit.toInt_lt
    have hpos : (0 : Int32) ≤ limit := Int32.zero_le_iff.mpr (le_trans (Int.natCast_nonneg l) hl)
    have hm' : (Int32.ofNat m).toInt = m := Int32.toInt_ofNat_of_lt' (by omega)
    have hsub : (limit - Int32.ofNat m).toInt = limit.toInt - m := by
      rw [Int32.toInt_sub_of_lt, hm']
      all_goals rw [hm']; omega
    rw [if_pos hpos]
    refine ⟨?_, ?_⟩
    · rintro ⟨-, hlt⟩
      rw [Int32.lt_zero_iff, hsub] at hlt
      omega
    · show ((l - m : ℕ) : ℤ) ≤ (limit - Int32.ofNat m).toInt
      rw [hsub]
      omega

/-- A limit that allows for more allows for less. -/
theorem Allows.mono {limit : Int32} {left : Option ℕ} (m : ℕ) (h : Allows limit left) :
    Allows limit (left.map (· - m)) := by
  cases left with
  | none => exact h
  | some l =>
    have hl : (l : ℤ) ≤ limit.toInt := h
    show ((l - m : ℕ) : ℤ) ≤ limit.toInt
    omega

/-- An iterator that holds an answer of the service, which had gone through the first
`p` results before and skipped `k` more with it, and which goes on from there. -/
structure Ready (E : Error → Prop) (At : γ → ℕ → Prop) (rs : List RawEntity) (p k : ℕ)
    (left : Option ℕ) (t : RpcIterator γ) : Prop where
  prev : Starts At t.prevCC p
  fits : ∃ offset, Fits At rs p left offset k t.res
  inBatch : t.i ≤ t.res.result.length
  allows : Allows t.limit (left.map (· - t.res.result.length))
  answers : t.res.getMoreResults = true → ∀ req : NextRequest,
    req.Follows t.res (left.map (· - t.res.result.length)) 0 →
    (t.server req).Conforms E At rs (p + k + t.res.result.length)
      (left.map (· - t.res.result.length)) 0

/-- **The loop of `Iterator.next`** comes to an entity, or to the end, or to an error
of the service, and passes over no result. -/
theorem fill_spec (ans : Answers RawEntity γ) (t : RpcIterator γ) {p : ℕ} {left : Option ℕ}
    {limit : Int32} {prevCC : Option γ} (ht : t.err = none) (hlimit : Allows limit left)
    (hprev : Starts At prevCC p) (h : ans.Conforms E At rs p left 0) :
    (∃ err, E err ∧ (t.fill ans limit prevCC).err = some err) ∨
      Ready E At rs p 0 left (t.fill ans limit prevCC) ∧ (t.fill ans limit prevCC).i = 0 ∧
        ((t.fill ans limit prevCC).err = none ∧ (t.fill ans limit prevCC).res.result ≠ [] ∨
          (t.fill ans limit prevCC).err = some .done ∧ (t.fill ans limit prevCC).res.result = [] ∧
            todo rs p left = []) := by
  induction ans generalizing t p left limit prevCC with
  | fail err => exact .inl ⟨err, h, rfl⟩
  | result res next ih =>
    obtain ⟨k, hfits, hnext⟩ := h
    obtain rfl : k = 0 := Nat.le_zero.mp hfits.le_offset
    have hskipped : res.getSkippedResults = 0 := Int32.toInt_inj.mp hfits.skipped
    obtain ⟨hover, hallows⟩ := hlimit.sub hfits.limited
    rw [RpcIterator.fill]
    simp only [hskipped, ne_eq, not_true_eq_false, if_false, if_neg hover]
    by_cases hnil : res.result = []
    · -- no result: the limit is as it was, and the loop goes on if there is more
      simp only [hnil, List.length_nil, not_true_eq_false, if_false]
      rw [hnil, List.length_nil] at hallows
      have hsame : left.map (· - 0) = left := by cases left <;> rfl
      cases hmore : res.getMoreResults with
      | false =>
        obtain ⟨-, hended⟩ := hfits.ended hmore
        rw [hnil, List.length_nil] at hended
        refine .inr ⟨⟨hprev, ⟨0, hfits⟩, Nat.zero_le _, ?_, fun hmore' => ?_⟩, rfl,
          .inr ⟨rfl, hnil, todo_eq_nil (by simpa using hended)⟩⟩
        · show Allows (if 0 ≤ limit then limit - Int32.ofNat 0 else limit)
            (left.map (· - res.result.length))
          rw [hnil, List.length_nil]
          exact hallows
        · exact absurd (hmore.symm.trans hmore') (by simp)
      | true =>
        obtain ⟨cc, hcc, hat⟩ := hfits.compiled
        obtain ⟨req, hreq, hfollows⟩ := callNext_follows (left.map (· - 0)) 0
          (if 0 ≤ limit then limit - Int32.ofNat 0 else limit) 0 (hfits.handle hmore) ⟨cc, hcc⟩
          hallows rfl
        have hconforms := hnext hmore req
        rw [hnil, List.length_nil] at hconforms
        simp only [Bool.not_true, Bool.false_eq_true, if_false, hreq]
        rw [hnil, List.length_nil] at hat
        rw [hsame] at hallows
        replace hconforms := hconforms hfollows
        rw [hsame] at hconforms
        exact ih req _ ht hallows (by rw [hcc]; exact hat) hconforms
    · -- the loop leaves with the batch
      have hlen : res.result.length ≠ 0 := fun hzero => hnil (List.length_eq_zero_iff.mp hzero)
      simp only [hlen, not_false_eq_true, if_true]
      exact .inr ⟨⟨hprev, ⟨0, hfits⟩, Nat.zero_le _, hallows, hnext⟩, trivial, .inl ⟨ht, hnil⟩⟩

/-- An iterator that has not failed, and where it stands: before the result at the
position `n`, with `l` results to come at most. -/
def Live (E : Error → Prop) (At : γ → ℕ → Prop) (rs : List RawEntity) (n : ℕ) (l : Option ℕ)
    (t : RpcIterator γ) : Prop :=
  ∃ p k left, Ready E At rs p k left t ∧ n = p + k + t.i ∧ l = left.map (· - t.i) ∧
    (t.err = none ∨ t.err = some .done ∧ t.i = t.res.result.length ∧ todo rs n l = [])

theorem map_sub_zero (left : Option ℕ) : left.map (· - 0) = left := by
  cases left <;> rfl

theorem map_sub_sub (left : Option ℕ) (i j : ℕ) :
    (left.map (· - i)).map (· - j) = left.map (· - (i + j)) := by
  cases left with
  | none => rfl
  | some l => exact congrArg some (Nat.sub_sub l i j)

variable {t : RpcIterator γ} {n : ℕ} {l : Option ℕ}

/-- `advance` comes to an entity, or to the end, or to an error of the service, and
the iterator stands where it stood. -/
theorem Live.advance (h : Live E At rs n l t) (ht : t.err = none) :
    (∃ err, E err ∧ t.advance.err = some err) ∨
      Live E At rs n l t.advance ∧
        (t.advance.err = none ∧ t.advance.i < t.advance.res.result.length ∨
          t.advance.err = some .done ∧ todo rs n l = []) := by
  obtain ⟨p, k, left, hready, rfl, rfl, hend⟩ := h
  unfold RpcIterator.advance
  by_cases hi : t.i = t.res.result.length
  · -- the batch has been gone through
    rw [if_pos hi]
    obtain ⟨offset, hfits⟩ := hready.fits
    cases hmore : t.res.getMoreResults with
    | false =>
      have hnil : todo rs (p + k + t.i) (left.map (· - t.i)) = [] := by
        refine todo_eq_nil ?_
        rw [hi]
        rcases (hfits.ended hmore).2 with hout | hlast
        · exact .inl hout
        · exact .inr (by rw [hlast, Option.map_some, Nat.sub_self])
      refine .inr ⟨⟨p, k, left, ⟨hready.prev, hready.fits, hready.inBatch, hready.allows,
        hready.answers⟩, rfl, rfl, .inr ⟨rfl, hi, hnil⟩⟩, .inr ⟨rfl, hnil⟩⟩
    | true =>
      -- its compiled cursor stands where the next batch begins
      obtain ⟨cc, hcc, hat⟩ := hfits.compiled
      obtain ⟨req, hreq, hfollows⟩ := callNext_follows (left.map (· - t.res.result.length)) 0
        t.limit 0 (hfits.handle hmore) ⟨cc, hcc⟩ hready.allows rfl
      simp only [Bool.not_true, Bool.false_eq_true, if_false, hreq]
      have hprev : Starts At t.res.compiledCursor (p + k + t.res.result.length) := by
        rw [hcc]
        exact hat
      rcases fill_spec (t.server req) t ht hready.allows hprev
          (hready.answers hmore req hfollows) with herr | ⟨hready', hi', hcases⟩
      · exact .inl herr
      · rw [hi]
        rcases hcases with ⟨herr, hne⟩ | ⟨herr, hnil, htodo⟩
        · refine .inr ⟨⟨_, 0, _, hready', ?_, ?_, .inl herr⟩, .inl ⟨herr, ?_⟩⟩
          · rw [hi']
            rfl
          · rw [hi', map_sub_zero]
          · rw [hi']
            exact List.length_pos_iff.mpr hne
        · refine .inr ⟨⟨_, 0, _, hready', ?_, ?_, .inr ⟨herr, ?_, htodo⟩⟩, .inr ⟨herr, htodo⟩⟩
          · rw [hi']
            rfl
          · rw [hi', map_sub_zero]
          · rw [hi', hnil]
            rfl
  · rw [if_neg hi]
    exact .inr ⟨⟨p, k, left, hready, rfl, rfl, hend⟩,
      .inl ⟨ht, lt_of_le_of_ne hready.inBatch hi⟩⟩

theorem next_of_err {err : Error} (h : t.err = some err) :
    t.next = (.error (.err err), t) := by
  simp only [RpcIterator.next, h]

theorem next_of_advance_err {err : Error} (h : t.err = none) (hadv : t.advance.err = some err) :
    t.next = (.error (.err err), t.advance) := by
  simp only [RpcIterator.next, h, hadv]

theorem next_of_advance {e : RawEntity} (h : t.err = none) (hadv : t.advance.err = none)
    (he : t.advance.res.result[t.advance.i]? = some e) :
    t.next = (e.read, { t.advance with i := t.advance.i + 1 }) := by
  simp only [RpcIterator.next, h, hadv, he, RawEntity.read]
  cases RpcIterator.readKey e <;> rfl

/-- **One call of `next`** answers the result at which the iterator stands and moves it
on by one, or answers `Done` where there is none, or answers an error of the service. -/
theorem Live.next (h : Live E At rs n l t) :
    (∃ err, E err ∧ t.next.1 = .error (.err err) ∧ t.next.2.err = some err) ∨
      (∃ e, todo rs n l = e :: todo rs (n + 1) (l.map (· - 1)) ∧ t.next.1 = e.read ∧
        Live E At rs (n + 1) (l.map (· - 1)) t.next.2) ∨
      todo rs n l = [] ∧ t.next.1 = .error (.err .done) ∧ Live E At rs n l t.next.2 ∧
        t.next.2.err = some .done := by
  cases ht : t.err with
  | some err =>
    -- the end had been reached before
    rw [next_of_err ht]
    obtain ⟨p, k, left, hready, hn, hl, hend⟩ := h
    rcases hend with hnone | ⟨hdone, hi, hnil⟩
    · exact absurd (ht.symm.trans hnone) (by simp)
    · obtain rfl : err = .done := Option.some.inj (ht.symm.trans hdone)
      exact .inr (.inr ⟨hnil, rfl, ⟨p, k, left, hready, hn, hl, .inr ⟨hdone, hi, hnil⟩⟩, hdone⟩)
  | none =>
    rcases h.advance ht with ⟨err, hE, hadv⟩ | ⟨hlive, ⟨hadv, hi⟩ | ⟨hadv, hnil⟩⟩
    · rw [next_of_advance_err ht hadv]
      exact .inl ⟨err, hE, rfl, hadv⟩
    · obtain ⟨p, k, left, hready, rfl, rfl, -⟩ := hlive
      obtain ⟨offset, hfits⟩ := hready.fits
      have hget := List.getElem?_eq_getElem hi
      rw [next_of_advance ht hadv hget]
      have hbatch := todo_append hfits.batch hfits.limited
      refine .inr (.inl ⟨_, ?_, rfl, p, k, left, ⟨hready.prev, ⟨offset, hfits⟩, hi, hready.allows,
        hready.answers⟩, rfl, map_sub_sub _ _ _, .inl hadv⟩)
      -- the batch is what comes first of the results that are left
      rw [map_sub_sub]
      show todo rs (p + k + t.advance.i) _ = _ :: todo rs (p + k + (t.advance.i + 1)) _
      rw [← drop_todo, ← drop_todo, hbatch,
        List.drop_append_of_le_length (le_of_lt hi), List.drop_append_of_le_length hi,
        List.drop_eq_getElem_cons hi, List.cons_append]
    · rw [next_of_advance_err ht hadv]
      exact .inr (.inr ⟨hnil, rfl, hlive, hadv⟩)

/-! ### Skipping the offset -/

/-- **The loop of `Query.Run`** skips the offset, as far as there are results to skip, or
ends with an error of the service. -/
theorem skip_spec (ans : Answers RawEntity γ) (t : RpcIterator γ) (first : Bool) {p : ℕ}
    {left : Option ℕ} {offset : Int32} {prevCC : Option γ} (ht : t.err = none) (hi : t.i = 0)
    (hlimit : Allows t.limit left) (hoffset : 0 ≤ offset.toInt) (hprev : Starts At prevCC p)
    (h : ans.Conforms E At rs p left offset.toInt.toNat) :
    (∃ err, E err ∧ (t.skip first ans offset prevCC).err = some err) ∨
      ∃ n, Live E At rs n left (t.skip first ans offset prevCC) ∧
        n ≤ p + offset.toInt.toNat ∧ (n = p + offset.toInt.toNat ∨ rs.length ≤ n) := by
  induction ans generalizing t first p left offset prevCC with
  | fail err => exact .inl ⟨err, h, rfl⟩
  | result res next ih =>
    obtain ⟨k, hfits, hnext⟩ := h
    have hk := hfits.le_offset
    have hlt := offset.toInt_lt
    -- no answer is taken for one that skips too many
    have hpos : ¬ res.getSkippedResults < 0 := by
      rw [Int32.lt_zero_iff, hfits.skipped]
      omega
    have hdiff : (offset - res.getSkippedResults).toInt = offset.toInt - k := by
      rw [Int32.toInt_sub_of_lt, hfits.skipped]
      all_goals rw [hfits.skipped]; omega
    have hshot : ¬ offset - res.getSkippedResults < 0 := by
      rw [Int32.lt_zero_iff, hdiff]
      omega
    have hrest : (offset - res.getSkippedResults).toInt.toNat = offset.toInt.toNat - k := by
      rw [hdiff]
      omega
    rw [RpcIterator.skip]
    simp only [hpos, decide_false, Bool.and_false, Bool.false_eq_true, if_false, hshot]
    by_cases hgo : (0 < offset - res.getSkippedResults && res.getMoreResults) = true
    · -- more is to be skipped, so nothing has been returned
      rw [if_pos hgo]
      obtain ⟨hleft, hmore⟩ := Bool.and_eq_true_iff.mp hgo
      rw [decide_eq_true_eq, Int32.lt_iff_toInt_lt, hdiff] at hleft
      change 0 < offset.toInt - k at hleft
      have hnil : res.result = [] := by
        by_contra hne
        have hwhole := hfits.whole hne
        omega
      obtain ⟨cc, hcc, hat⟩ := hfits.compiled
      have hconforms := hnext hmore
      rw [hnil, List.length_nil, Nat.add_zero, map_sub_zero] at hconforms
      rw [hnil, List.length_nil, Nat.add_zero] at hat
      obtain ⟨req, hreq, hfollows⟩ := callNext_follows left (offset - res.getSkippedResults)
        t.limit (offset.toInt.toNat - k) (hfits.handle hmore) ⟨cc, hcc⟩ hlimit (by omega)
      simp only [hreq]
      replace hconforms := hconforms req hfollows
      rw [← hrest] at hconforms
      have hprev' : Starts At res.compiledCursor (p + k) := by
        rw [hcc]
        exact hat
      rcases ih req { t with res := res, server := next, prevCC := prevCC } false ht hi hlimit
          (by omega) hprev' hconforms with herr | ⟨n, hlive, hle, hn⟩
      · exact .inl herr
      · refine .inr ⟨n, hlive, ?_, ?_⟩
        · omega
        · omega
    · -- all has been skipped, or there is no more to skip
      rw [if_neg hgo]
      have hdone : res.getMoreResults = true → offset.toInt.toNat - k = 0 := by
        intro hmore
        rw [hmore, Bool.and_true, decide_eq_true_eq, Int32.lt_iff_toInt_lt, hdiff] at hgo
        change ¬ 0 < offset.toInt - k at hgo
        omega
      refine .inr ⟨p + k, ⟨p, k, left, ⟨hprev, ⟨_, hfits⟩, ?_, hlimit.mono _, ?_⟩, ?_, ?_,
        .inl ht⟩, ?_, ?_⟩
      · show t.i ≤ res.result.length
        omega
      · intro hmore req hfollows
        have hconforms := hnext hmore req
        rw [hdone hmore] at hconforms
        exact hconforms hfollows
      · show p + k = p + k + t.i
        rw [hi]
        rfl
      · show left = left.map (· - t.i)
        rw [hi, map_sub_zero]
      · omega
      · cases hmore : res.getMoreResults with
        | false =>
          rcases (hfits.ended hmore).1 with hall | hout
          · exact .inl (by rw [hall])
          · exact .inr hout
        | true =>
          have hzero := hdone hmore
          exact .inl (by omega)

/-- Where a query stands once its offset has been skipped, its window is what is left. -/
theorem BoundedQuery.window_eq {q : BoundedQuery γ} {start : ℕ}
    (hle : n ≤ start + q.offset.toInt.toNat)
    (h : n = start + q.offset.toInt.toNat ∨ rs.length ≤ n) :
    q.window rs start = todo rs n q.left := by
  rcases h with rfl | hout
  · rfl
  · rw [window, todo_eq_nil (.inl hout), todo_eq_nil (.inl (by omega))]

variable {server : QueryProto γ → Answers RawEntity γ} {q : BoundedQuery γ} {start : ℕ}
  {appID : GoString}

/-- The iterator that `Query.Run` returns stands at the beginning of the query's window. -/
theorem BoundedQuery.run_live (hq : q.toQuery.Valid) (hoffset : 0 ≤ q.offset.toInt)
    (hstart : Starts At q.start start) (h : ServesQuery E At rs q.toQuery q.stop appID server) :
    (∃ err, E err ∧ (q.run server appID).err = some err) ∨
      ∃ n, Live E At rs n q.left (q.run server appID) ∧ n ≤ start + q.offset.toInt.toNat ∧
        (n = start + q.offset.toInt.toNat ∨ rs.length ≤ n) := by
  obtain ⟨req, hreq⟩ := BoundedQuery.exists_request hq appID
  unfold BoundedQuery.run
  simp only [hq.err, hreq]
  exact skip_spec (server req) _ true rfl rfl q.allows_left hoffset hstart
    (h q start req rfl rfl hstart hoffset hreq)

/-! ### What an iterator yields -/

theorem gives_of_err {err : Error} (h : t.err = some err) :
    Gives RpcIterator.next t [] (.error (.err err)) := by
  refine gives_nil (P := fun t => t.err = some err) (fun t ht => ?_) h
  rw [next_of_err ht]
  exact ⟨rfl, ht⟩

/-- **What a live iterator yields**: the results it has to come and then `Done` for ever,
or a first part of them and then an error of the service. -/
theorem Live.gives (h : Live E At rs n l t) :
    Gives RpcIterator.next t ((todo rs n l).map RawEntity.read) (.error (.err .done)) ∨
      ∃ ys err, E err ∧ ys <+: (todo rs n l).map RawEntity.read ∧
        Gives RpcIterator.next t ys (.error (.err err)) := by
  -- by induction on the results to come, of which each call takes one
  generalize hes : todo rs n l = es
  induction es generalizing n l t with
  | nil =>
    rcases h.next with ⟨err, hE, hnext, herr⟩ | ⟨e, htodo, -, -⟩ | ⟨-, hnext, -, herr⟩
    · exact .inr ⟨[], err, hE, List.nil_prefix, (gives_of_err herr).same hnext⟩
    · exact absurd (hes.symm.trans htodo) (by simp)
    · exact .inl ((gives_of_err herr).same hnext)
  | cons e es ih =>
    rcases h.next with ⟨err, hE, hnext, herr⟩ | ⟨e', htodo, hnext, hlive⟩ | ⟨hnil, -, -, -⟩
    · exact .inr ⟨[], err, hE, List.nil_prefix, (gives_of_err herr).same hnext⟩
    · obtain ⟨rfl, hrest⟩ := List.cons.inj (hes.symm.trans htodo)
      have hstep : t.next = (e.read, t.next.2) := Prod.ext hnext rfl
      rcases ih hlive hrest.symm with hgives | ⟨ys, err, hE, hys, hgives⟩
      · exact .inl (Gives.cons hstep hgives)
      · exact .inr ⟨e.read :: ys, err, hE, List.cons_prefix_cons.mpr ⟨rfl, hys⟩,
          Gives.cons hstep hgives⟩
    · exact absurd (hes.symm.trans hnil) (by simp)

/-- **`Query.Run` yields the window of the query**, or a first part of it and then, for
ever, an error of the service. -/
theorem run_spec (hq : q.toQuery.Valid) (hoffset : 0 ≤ q.offset.toInt)
    (hstart : Starts At q.start start) (h : ServesQuery E At rs q.toQuery q.stop appID server) :
    Gives RpcIterator.next (q.run server appID) ((q.window rs start).map RawEntity.read)
        (.error (.err .done)) ∨
      ∃ ys err, E err ∧ ys <+: (q.window rs start).map RawEntity.read ∧
        Gives RpcIterator.next (q.run server appID) ys (.error (.err err)) := by
  rcases BoundedQuery.run_live hq hoffset hstart h with ⟨err, hE, herr⟩ | ⟨n, hlive, hle, hn⟩
  · exact .inr ⟨[], err, hE, List.nil_prefix, gives_of_err herr⟩
  · rw [BoundedQuery.window_eq hle hn]
    exact hlive.gives

/-! ### Cursors -/

theorem after_of_err {err : Error} (m : ℕ) (h : t.err = some err) :
    after RpcIterator.next m t = t := by
  induction m with
  | zero => rfl
  | succ m ih => rw [after, next_of_err h, ih]

theorem todo_sub_eq_nil {p m : ℕ} {left : Option ℕ} (h : todo rs p (left.map (· - m)) = []) :
    todo rs p (left.map (· - (m + 1))) = [] := by
  rw [← map_sub_sub]
  cases left with
  | none => exact h
  | some l =>
    have htake : (rs.drop p).take (l - m) = [] := h
    show (rs.drop p).take (l - m - 1) = []
    rcases List.take_eq_nil_iff.mp htake with hzero | hnil
    · rw [hzero]
      rfl
    · rw [hnil, List.take_nil]

/-- **Where a live iterator stands after some calls**: after as many of the results it
had to come, if the service has not failed. -/
theorem Live.after (m : ℕ) (h : Live E At rs n l t) :
    (∃ err, E err ∧ (after RpcIterator.next m t).err = some err) ∨
      ∃ n' l', Live E At rs n' l' (after RpcIterator.next m t) ∧
        todo rs n' (l.map (· - m)) = (todo rs n l).drop m := by
  induction m generalizing n l t with
  | zero => exact .inr ⟨n, l, h, by rw [map_sub_zero]; rfl⟩
  | succ m ih =>
    rw [Calls.after]
    rcases h.next with ⟨err, hE, -, herr⟩ | ⟨e, htodo, -, hlive⟩ | ⟨hnil, -, hlive, -⟩
    · -- a failed iterator does not move any more
      rw [after_of_err m herr]
      exact .inl ⟨err, hE, herr⟩
    · rcases ih hlive with herr | ⟨n', l', hlive', htodo'⟩
      · exact .inl herr
      · refine .inr ⟨n', l', hlive', ?_⟩
        rw [map_sub_sub, Nat.add_comm 1 m] at htodo'
        rw [htodo', htodo, List.drop_succ_cons]
    · rcases ih hlive with herr | ⟨n', l', hlive', htodo'⟩
      · exact .inl herr
      · refine .inr ⟨n', l', hlive', ?_⟩
        rw [hnil, List.drop_nil] at htodo' ⊢
        exact todo_sub_eq_nil htodo'

/-- **A cursor stands where the iterator stands**, or the service has failed when the
query was run again for it. The service has to give the query without properties the
same number of results, and no more than an `int32` counts. -/
theorem Live.cursor {zeroCC : γ} {rs' : List RawEntity} (h : Live E At rs n l t)
    (hzero : At zeroCC 0) (hE : ¬ E .done) (hq : t.q.toQuery.Valid)
    (hs : ServesQuery E At rs' t.q.toQuery.forCount t.q.stop appID server)
    (hlen : rs'.length = rs.length) (hbound : rs.length ≤ 2147483647) :
    (∃ err, E err ∧ t.cursor zeroCC server appID = .error (.err err)) ∨
      ∃ cc, t.cursor zeroCC server appID = .ok (some cc) ∧ At cc n := by
  obtain ⟨p, k, left, hready, rfl, rfl, hend⟩ := h
  obtain ⟨offset, hfits⟩ := hready.fits
  have herr : t.err.filter (· ≠ .done) = none := by
    rcases hend with hnone | ⟨hdone, -⟩
    · rw [hnone]
      rfl
    · rw [hdone]
      rfl
  unfold RpcIterator.cursor
  rw [herr]
  simp only
  by_cases hbegin : t.i = 0 ∧ t.res.getSkippedResults = 0
  · -- at the beginning of the batch
    rw [if_pos hbegin]
    have hk : k = 0 := by
      have hskipped := hfits.skipped
      rw [hbegin.2] at hskipped
      exact (Int.ofNat_eq_zero.mp hskipped.symm)
    rw [hbegin.1, hk]
    have hprev := hready.prev
    cases hcc : t.prevCC with
    | none =>
      rw [hcc] at hprev
      obtain rfl : p = 0 := hprev
      exact .inr ⟨zeroCC, rfl, hzero⟩
    | some cc =>
      rw [hcc] at hprev
      exact .inr ⟨cc, rfl, hprev⟩
  · rw [if_neg hbegin]
    by_cases hlast : t.i = t.res.result.length
    · -- at the end of the batch
      rw [if_pos hlast, hlast]
      obtain ⟨cc, hcc, hat⟩ := hfits.compiled
      exact .inr ⟨cc, by rw [hcc], hat⟩
    · -- within the batch: the query is run again up to here
      rw [if_neg hlast]
      have hbatch := hfits.batch.length_le
      rw [List.length_drop] at hbatch
      have hin := hready.inBatch
      have hoffset : t.reached.offset.toInt = (k + t.i : ℕ) := by
        show (t.res.getSkippedResults + Int32.ofNat t.i).toInt = _
        have hi : (Int32.ofNat t.i).toInt = t.i := Int32.toInt_ofNat_of_lt' (by omega)
        rw [Int32.toInt_add_of_lt, hi, hfits.skipped]
        · omega
        all_goals rw [hi, hfits.skipped]; omega
      have hleft : t.reached.left = some 0 := rfl
      rcases BoundedQuery.run_live (q := t.reached) hq.forCount (by rw [hoffset]; omega)
          hready.prev hs with ⟨err, hE', hrun⟩ | ⟨n, hlive, hle, hn⟩
      · rw [next_of_err hrun]
        refine .inl ⟨err, hE', if_neg ?_⟩
        rintro rfl
        exact hE hE'
      · -- it skips what the iterator has passed over, and returns nothing
        rw [hoffset, Int.toNat_natCast] at hle hn
        have hn' : n = p + k + t.i := by omega
        rw [hleft] at hlive
        rcases hlive.next with ⟨err, hE', hnext, -⟩ | ⟨e, htodo, -⟩ | ⟨-, hnext, hlive', hdone⟩
        · rw [show (t.reached.run server appID).next = (.error (.err err), _) from
            Prod.ext hnext rfl]
          refine .inl ⟨err, hE', if_neg ?_⟩
          rintro rfl
          exact hE hE'
        · exact absurd htodo (by simp [todo])
        · rw [show (t.reached.run server appID).next = (.error (.err .done), _) from
            Prod.ext hnext rfl]
          obtain ⟨p', k', left', hready', hpos, -, hend'⟩ := hlive'
          obtain ⟨offset', hfits'⟩ := hready'.fits
          obtain ⟨cc, hcc, hat⟩ := hfits'.compiled
          have hlast' : (t.reached.run server appID).next.2.i =
              (t.reached.run server appID).next.2.res.result.length := by
            rcases hend' with hnone | ⟨-, hlast', -⟩
            · exact absurd (hdone.symm.trans hnone) (by simp)
            · exact hlast'
          rw [← hlast', ← hpos, hn'] at hat
          exact .inr ⟨cc, by simp only [if_true]; exact congrArg Except.ok hcc, hat⟩

end PluginsDatastore
