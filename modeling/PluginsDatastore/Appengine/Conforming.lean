import Mathlib.Algebra.Order.Group.Int
import PluginsDatastore.Appengine.Rpc
import PluginsDatastore.Calls.Iteration

/-!
# Queries against a conforming service

What the client's loops of `Appengine/Rpc.lean` amount to when the service keeps
to its side of the protocol. `Answers.Conforms` is that side: the service goes
through the results of the query in their order, first skipping as many as it is
asked to and then returning them, in batches of its own choosing, and sets
`more_results` unless the results or the limit have run out. It may fail at any
call, and what it makes of a request that no client should make is left open.

Against a conforming service a count is the number of results in the window of the
query's cursors, offset and limit, as far as an `int32` counts (`count_spec`). What
an iterator yields is the subject of `Appengine/Iterating.lean`.
-/

namespace PluginsDatastore

open Calls

/-! ### 32-bit integers -/

theorem Int32.toInt_add_of_lt {a b : Int32} (h₁ : -2147483648 ≤ a.toInt + b.toInt)
    (h₂ : a.toInt + b.toInt < 2147483648) : (a + b).toInt = a.toInt + b.toInt := by
  rw [Int32.toInt_add]
  exact Int.bmod_eq_of_le (by simpa using h₁) (by simpa using h₂)

theorem Int32.toInt_sub_of_lt {a b : Int32} (h₁ : -2147483648 ≤ a.toInt - b.toInt)
    (h₂ : a.toInt - b.toInt < 2147483648) : (a - b).toInt = a.toInt - b.toInt := by
  rw [Int32.toInt_sub]
  exact Int.bmod_eq_of_le (by simpa using h₁) (by simpa using h₂)

theorem Int32.toInt_ofNat_of_lt' {n : ℕ} (h : n < 2147483648) : (Int32.ofNat n).toInt = n := by
  rw [← Int32.ofInt_eq_ofNat]
  exact Int32.toInt_ofInt_of_le (by omega) (by omega)

theorem Int32.lt_zero_iff {a : Int32} : a < 0 ↔ a.toInt < 0 := Int32.lt_iff_toInt_lt

theorem Int32.zero_le_iff {a : Int32} : 0 ≤ a ↔ 0 ≤ a.toInt := Int32.le_iff_toInt_le

/-! ### The service's side -/

section

variable {α γ : Type}

/-- The limit that the client keeps is at least what the service has left. -/
def Allows (limit : Int32) : Option ℕ → Prop
  | none => limit.toInt < 0
  | some l => (l : ℤ) ≤ limit.toInt

/-- A `Next` request that asks for all results that are left, if these are limited. -/
def NextRequest.Counts (req : NextRequest) : Option ℕ → Prop
  | none => req.count = none
  | some l => ∃ count, req.count = some count ∧ (l : ℤ) ≤ count.toInt

/-- A `Next` request that follows a result, with `offset` results still to be skipped
and `left` to be returned at most. -/
structure NextRequest.Follows (req : NextRequest) (res : QueryResult α γ) (left : Option ℕ)
    (offset : ℕ) : Prop where
  cursor : res.cursor = some req.cursor
  compile : req.compile = true
  offset : (req.offset.getD 0).toInt = offset
  count : req.Counts left

/-- One answer of a service that has gone through the first `p` results of a query,
may return `left` more, and is asked to skip `offset` of them: it skips `k` results
and returns those of `res`. The cursors that stand at a position are given by `At`. -/
structure Fits (At : γ → ℕ → Prop) (rs : List α) (p : ℕ) (left : Option ℕ) (offset k : ℕ)
    (res : QueryResult α γ) : Prop where
  skipped : res.getSkippedResults.toInt = k
  le_offset : k ≤ offset
  inRange : k = 0 ∨ p + k ≤ rs.length
  batch : res.result <+: rs.drop (p + k)
  /-- Nothing is returned before all has been skipped. -/
  whole : res.result ≠ [] → k = offset
  limited : ∀ l, left = some l → res.result.length ≤ l
  ended : res.getMoreResults = false → (k = offset ∨ rs.length ≤ p + k) ∧
    (rs.length ≤ p + k + res.result.length ∨ left = some res.result.length)
  handle : res.getMoreResults = true → ∃ cursor, res.cursor = some cursor
  compiled : ∃ cc, res.compiledCursor = some cc ∧ At cc (p + k + res.result.length)

/-- **The answers of a service that keeps to the protocol**, which may fail with the
errors in `E`. -/
def Answers.Conforms (E : Error → Prop) (At : γ → ℕ → Prop) (rs : List α) :
    Answers α γ → ℕ → Option ℕ → ℕ → Prop
  | .fail err, _, _, _ => E err
  | .result res next, p, left, offset =>
    ∃ k, Fits At rs p left offset k res ∧
      (res.getMoreResults = true → ∀ req : NextRequest,
        req.Follows res (left.map (· - res.result.length)) (offset - k) →
        (next req).Conforms E At rs (p + k + res.result.length)
          (left.map (· - res.result.length)) (offset - k))

/-- The results after the first `p`, as many as are left to be returned. -/
def todo (rs : List α) (p : ℕ) : Option ℕ → List α
  | none => rs.drop p
  | some l => (rs.drop p).take l

theorem todo_eq_nil_iff {rs : List α} {p : ℕ} {left : Option ℕ} :
    todo rs p left = [] ↔ rs.length ≤ p ∨ left = some 0 := by
  cases left with
  | none => simp [todo]
  | some l => simp [todo, List.take_eq_nil_iff, or_comm]

theorem todo_eq_nil {rs : List α} {p : ℕ} {left : Option ℕ}
    (h : rs.length ≤ p ∨ left = some 0) : todo rs p left = [] := todo_eq_nil_iff.mpr h

/-- What is to do comes first of all that is left of the results. -/
theorem todo_isPrefix (rs : List α) (p : ℕ) (left : Option ℕ) : todo rs p left <+: rs.drop p := by
  cases left with
  | none => exact List.prefix_rfl
  | some l => exact List.take_prefix l _

theorem drop_todo {rs : List α} {p : ℕ} {left : Option ℕ} (i : ℕ) :
    (todo rs p left).drop i = todo rs (p + i) (left.map (· - i)) := by
  cases left with
  | none => exact List.drop_drop
  | some l => rw [todo, List.drop_take, List.drop_drop]; rfl

/-- Results that are returned are those to do, and the rest is left. -/
theorem todo_append {rs batch : List α} {p : ℕ} {left : Option ℕ} (h : batch <+: rs.drop p)
    (hleft : ∀ l, left = some l → batch.length ≤ l) :
    todo rs p left = batch ++ todo rs (p + batch.length) (left.map (· - batch.length)) := by
  obtain ⟨rest, hrest⟩ := h
  have hdrop : rs.drop (p + batch.length) = rest := by
    rw [← List.drop_drop, ← hrest, List.drop_left]
  cases left with
  | none => rw [Option.map_none, todo, todo, hdrop, hrest]
  | some l =>
    rw [Option.map_some, todo, todo, hdrop, ← hrest, List.take_append,
      List.take_of_length_le (hleft l rfl)]

/-- The client follows up a result with the limit and the offset that it keeps. -/
theorem callNext_follows {res : QueryResult α γ} (left : Option ℕ) (offset limit : Int32) (n : ℕ)
    (hcursor : ∃ cursor, res.cursor = some cursor) (hcompiled : ∃ cc, res.compiledCursor = some cc)
    (hlimit : Allows limit left) (hoffset : offset.toInt = n) :
    ∃ req, res.callNext offset limit = .ok req ∧ req.Follows res left n := by
  obtain ⟨cursor, hcursor⟩ := hcursor
  obtain ⟨cc, hcompiled⟩ := hcompiled
  unfold QueryResult.callNext
  rw [hcursor]
  refine ⟨_, rfl, hcursor, ?_, ?_, ?_⟩
  · rw [hcompiled]
    rfl
  · -- an offset of zero is left out of the request
    by_cases hzero : offset = 0
    · rw [hzero] at hoffset
      simpa [hzero] using hoffset
    · simpa [hzero] using hoffset
  · cases left with
    | none =>
      have hneg : ¬ (0 : Int32) ≤ limit := by
        rw [Int32.zero_le_iff]
        exact Int.not_le.mpr hlimit
      exact if_neg hneg
    | some l =>
      have hpos : (0 : Int32) ≤ limit :=
        Int32.zero_le_iff.mpr (Int.le_trans (Int.natCast_nonneg l) hlimit)
      exact ⟨limit, if_pos hpos, hlimit⟩

/-! ### Counting -/

variable {E : Error → Prop} {At : γ → ℕ → Prop} {rs : List α}

/-- **The loop of `Query.Count`** adds what is skipped to what was counted. -/
theorem countLoop_spec {offset n : Int32} (ans : Answers α γ) {p : ℕ} (hn : 0 ≤ n.toInt)
    (hle : n.toInt ≤ offset.toInt)
    (h : ans.Conforms E At rs p (some 0) (offset.toInt - n.toInt).toNat) :
    (∃ err, E err ∧ countLoop offset ans n = .error err) ∨
      ∃ m, countLoop offset ans n = .ok m ∧
        m.toInt = n.toInt + min (offset.toInt - n.toInt) ((rs.length - p : ℕ) : ℤ) := by
  induction ans generalizing n p with
  | fail err => exact .inl ⟨err, h, rfl⟩
  | result res next ih =>
    obtain ⟨k, hfits, hnext⟩ := h
    -- a count asks for no results, so an answer only skips
    have hnil : res.result = [] := List.length_eq_zero_iff.mp
      (Nat.le_zero.mp (hfits.limited 0 rfl))
    have hk := hfits.le_offset
    have hrange := hfits.inRange
    have hoffset := offset.toInt_lt
    have hsum : (n + res.getSkippedResults).toInt = n.toInt + k := by
      rw [Int32.toInt_add_of_lt, hfits.skipped]
      all_goals rw [hfits.skipped]; omega
    rw [countLoop, hnil]
    simp only [List.length_nil, ne_eq, not_true_eq_false, if_false]
    cases hmore : res.getMoreResults with
    | false =>
      -- the last answer: all has been skipped, or there was no more to skip
      obtain ⟨hskipped, -⟩ := hfits.ended hmore
      refine .inr ⟨_, rfl, ?_⟩
      rw [hsum]
      omega
    | true =>
      -- the next call asks to skip what is left of the offset
      have hdiff : (offset - (n + res.getSkippedResults)).toInt = offset.toInt - (n.toInt + k) := by
        rw [Int32.toInt_sub_of_lt, hsum]
        all_goals rw [hsum]; omega
      obtain ⟨cc, hcc, -⟩ := hfits.compiled
      obtain ⟨req, hreq, hfollows⟩ := callNext_follows (some 0)
        (offset - (n + res.getSkippedResults)) 0 ((offset.toInt - n.toInt).toNat - k)
        (hfits.handle hmore) ⟨cc, hcc⟩ (Int.le_refl 0) (by rw [hdiff]; omega)
      have hconforms := hnext hmore req
      have hoff : (offset.toInt - n.toInt).toNat - k =
          (offset.toInt - (n + res.getSkippedResults).toInt).toNat := by
        rw [hsum]
        omega
      rw [hnil, List.length_nil, Nat.add_zero, Option.map_some, Nat.sub_zero] at hconforms
      replace hconforms := hconforms hfollows
      rw [hoff] at hconforms
      simp only [Bool.not_true, Bool.false_eq_true, if_false, hreq]
      rcases ih req (by omega) (by omega) hconforms with herr | ⟨m, hm, hval⟩
      · exact .inl herr
      · exact .inr ⟨m, hm, by rw [hval, hsum]; omega⟩

/-- Where a query begins that has a start cursor, or none. -/
def Starts (At : γ → ℕ → Prop) : Option γ → ℕ → Prop
  | none, p => p = 0
  | some cc, p => At cc p

/-- How many results a query may return. -/
def BoundedQuery.left (q : BoundedQuery γ) : Option ℕ :=
  if 0 ≤ q.limit then some q.limit.toInt.toNat else none

/-- **A service that answers a query**, with whatever start cursor, offset and limit, by
the results `rs` up to its end cursor. -/
def ServesQuery (E : Error → Prop) (At : γ → ℕ → Prop) (rs : List α) (q : Query) (stop : Option γ)
    (appID : GoString) (server : QueryProto γ → Answers α γ) : Prop :=
  ∀ (b : BoundedQuery γ) (start : ℕ) (req : QueryProto γ), b.toQuery = q → b.stop = stop →
    Starts At b.start start → 0 ≤ b.offset.toInt → b.request appID = .ok req →
    (server req).Conforms E At rs start b.left b.offset.toInt.toNat

/-- The results in the window of a query that begins at the position `start`. -/
def BoundedQuery.window (q : BoundedQuery γ) (rs : List α) (start : ℕ) : List α :=
  todo rs (start + q.offset.toInt.toNat) q.left

theorem BoundedQuery.allows_left (q : BoundedQuery γ) : Allows q.limit q.left := by
  unfold left
  by_cases hpos : 0 ≤ q.limit
  · rw [if_pos hpos]
    have hlimit := Int32.zero_le_iff.mp hpos
    show ((q.limit.toInt.toNat : ℕ) : ℤ) ≤ q.limit.toInt
    omega
  · rw [if_neg hpos]
    rw [Int32.zero_le_iff] at hpos
    exact Int.not_le.mp hpos

theorem newQuery_valid (kind : GoString) : (newQuery kind).Valid :=
  ⟨rfl, by simp [newQuery], rfl⟩

theorem BoundedQuery.exists_request {q : BoundedQuery γ} (h : q.toQuery.Valid) (appID : GoString) :
    ∃ req, q.request appID = .ok req := by
  unfold request
  rw [h.toProto]
  exact ⟨_, rfl⟩

/-- The request of a query carries its bounds. -/
theorem BoundedQuery.request_ok {q : BoundedQuery γ} {appID : GoString} {req : QueryProto γ}
    (h : q.request appID = .ok req) :
    req.query = q.toQuery ∧ (req.limit.map fun l => l.toInt.toNat) = q.left ∧
      (∀ l, req.limit = some l → 0 ≤ l.toInt) ∧ req.offset.getD 0 = q.offset ∧
      req.compiledCursor = q.start ∧ req.endCompiledCursor = q.stop ∧ req.compile = true := by
  unfold request at h
  split at h
  · exact absurd h (by simp)
  · obtain rfl := Except.ok.inj h
    refine ⟨rfl, ?_, fun l hl => ?_, ?_, rfl, rfl, rfl⟩
    · unfold left
      by_cases hpos : 0 ≤ q.limit
      · simp only [hpos, if_true, Option.map_some]
      · simp only [hpos, if_false, Option.map_none]
    · by_cases hpos : 0 ≤ q.limit
      · simp only [hpos, if_true, Option.some.injEq] at hl
        exact hl ▸ Int32.zero_le_iff.mp hpos
      · simp only [hpos, if_false] at hl
        exact absurd hl (by simp)
    · by_cases hzero : q.offset = 0 <;> simp [hzero]

variable {server : QueryProto γ → Answers α γ} {q : BoundedQuery γ} {start : ℕ}
  {appID : GoString}

theorem length_todo (rs : List α) (p : ℕ) (left : Option ℕ) :
    (todo rs p left).length = match left with
      | none => rs.length - p
      | some l => min l (rs.length - p) := by
  cases left with
  | none => exact List.length_drop
  | some l => rw [todo, List.length_take, List.length_drop]

/-- The offset that a count skips to is past the window, as far as an `int32` goes. -/
theorem BoundedQuery.countOffset_toInt (hoffset : 0 ≤ q.offset.toInt) :
    q.countOffset.toInt = match q.left with
      | none => 2147483647
      | some l => min (q.offset.toInt + l) 2147483647 := by
  have hmax : maxInt32.toInt = 2147483647 := rfl
  unfold countOffset left
  by_cases hneg : q.limit < 0
  · have hpos : ¬ 0 ≤ q.limit := by
      rw [Int32.zero_le_iff]
      exact Int.not_le.mpr (Int32.lt_zero_iff.mp hneg)
    rw [if_pos hneg, if_neg hpos, hmax]
  · have hpos : 0 ≤ q.limit.toInt := Int.not_lt.mp (fun hlt => hneg (Int32.lt_zero_iff.mpr hlt))
    have hlt := q.offset.toInt_lt
    have hlt' := q.limit.toInt_lt
    rw [if_neg hneg, if_pos (Int32.zero_le_iff.mpr hpos)]
    show _ = min (q.offset.toInt + (q.limit.toInt.toNat : ℕ)) 2147483647
    rw [Int.toNat_of_nonneg hpos]
    by_cases hsum : q.offset.toInt + q.limit.toInt < 2147483648
    · have hadd := Int32.toInt_add_of_lt (a := q.offset) (b := q.limit) (by omega) hsum
      rw [if_neg (by rw [Int32.lt_zero_iff, hadd]; omega), hadd]
      omega
    · -- the sum overflows
      have hadd : (q.offset + q.limit).toInt = q.offset.toInt + q.limit.toInt - 4294967296 := by
        rw [Int32.toInt_add, Int.bmod_eq_emod]
        split <;> omega
      rw [if_pos (by rw [Int32.lt_zero_iff, hadd]; omega), hmax]
      omega

/-- **What `Query.Count` gives** is the number of results in the window of the query, as
far as an `int32` counts beyond its offset. -/
theorem count_spec (hq : q.toQuery.Valid) (hoffset : 0 ≤ q.offset.toInt)
    (hstart : Starts At q.start start)
    (h : ServesQuery E At rs q.toQuery.forCount q.stop appID server) :
    (∃ err, E err ∧ q.count server appID = .error err) ∨
      q.count server appID =
        .ok (min ((q.window rs start).length : ℤ) (2147483647 - q.offset.toInt)) := by
  have hvalid : q.forCount.toQuery.Valid := hq.forCount
  obtain ⟨req, hreq⟩ := BoundedQuery.exists_request hvalid appID
  have hcap := BoundedQuery.countOffset_toInt hoffset
  have hlt := q.offset.toInt_lt
  -- it asks to skip the offset and all that the limit lets it count
  have hcount : q.offset.toInt ≤ q.countOffset.toInt := by
    rw [hcap]
    cases q.left <;> simp only <;> omega
  have hpos : 0 ≤ q.countOffset.toInt := Int.le_trans hoffset hcount
  have hzero : (0 : Int32).toInt = 0 := rfl
  have hconforms : (server req).Conforms E At rs start (some 0)
      (q.countOffset.toInt - (0 : Int32).toInt).toNat := by
    rw [hzero, Int.sub_zero]
    exact h q.forCount start req rfl rfl hstart hpos hreq
  unfold BoundedQuery.count
  simp only [hq.err, hreq]
  rcases countLoop_spec (server req) (le_of_eq hzero.symm) (hzero ▸ hpos) hconforms with
    ⟨err, herr, hloop⟩ | ⟨m, hloop, hm⟩
  · exact .inl ⟨err, herr, by rw [show q.forCount.offset = q.countOffset from rfl, hloop]⟩
  · refine .inr ?_
    rw [show q.forCount.offset = q.countOffset from rfl, hloop, BoundedQuery.window, length_todo]
    show Except.ok (if m - q.offset < 0 then (0 : ℤ) else (m - q.offset).toInt) = _
    rw [hzero, Int.sub_zero, Int.zero_add] at hm
    have hm_lt := m.toInt_lt
    have hsub : (m - q.offset).toInt = m.toInt - q.offset.toInt :=
      Int32.toInt_sub_of_lt (by omega) (by omega)
    -- an offset past the results gives no results
    have hclip : (if m - q.offset < 0 then (0 : ℤ) else (m - q.offset).toInt) =
        max 0 (m.toInt - q.offset.toInt) := by
      rw [← hsub]
      by_cases hneg : m - q.offset < 0
      · rw [if_pos hneg, max_eq_left (le_of_lt (Int32.lt_zero_iff.mp hneg))]
      · rw [if_neg hneg, max_eq_right (Int.not_lt.mp (mt Int32.lt_zero_iff.mpr hneg))]
    rw [hclip, hm, hcap]
    refine congrArg Except.ok ?_
    cases q.left with
    | none => simp only; omega
    | some l => simp only; omega

end

end PluginsDatastore
