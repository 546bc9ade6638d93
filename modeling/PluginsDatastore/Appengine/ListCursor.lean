import Mathlib.Data.List.Sort
import Mathlib.Order.Basic
import PluginsDatastore.Appengine.Iterating

/-!
# The development server's query cursors

The service's side of a query as the development server has it, in
`google/appengine/datastore/datastore_stub_util.py`: a `ListCursor` over the
results that the query has when `RunQuery` is called, from which this call and the
`Next` calls after it are answered.

Results are sorted by a key, of a linear order: what `cmp_for_filter` compares of an
entity, which is also what a compiled cursor keeps of it.
-/

namespace PluginsDatastore

open Calls

/-- `CompiledCursor`: the sort key of the result it stands at and whether it stands
before that result. Without a position it stands at the start. -/
structure CompiledCursor (κ : Type) where
  postfixPosition : Option (κ × Bool) := none
  deriving DecidableEq

/-- A slice `l[i:j]` of a Python list. A negative end counts from the end of the list. -/
def pySlice {α : Type} (l : List α) (i : ℕ) (j : ℤ) : List α :=
  (l.take (if j < 0 then l.length + j else j).toNat).drop i

/-! ### Where a cursor stands -/

/-- The loop of `_GetCursorOffset`, a binary search for the first position that is not
before the cursor. -/
def bisect (before : ℕ → Bool) (lo hi : ℕ) : ℕ :=
  if lo < hi then
    let mid := (lo + hi) / 2
    if before mid then bisect before (mid + 1) hi else bisect before lo mid
  else lo
termination_by hi - lo

/-- **The binary search finds** the position up to which all are before. -/
theorem bisect_spec {before : ℕ → Bool} {lo hi n : ℕ} (hlo : lo ≤ n) (hhi : n ≤ hi)
    (hbefore : ∀ i, i < n → before i = true) (hafter : ∀ i, n ≤ i → i < hi → before i = false) :
    bisect before lo hi = n := by
  -- by induction on the search, which keeps `n` between its bounds
  induction lo, hi using bisect.induct before with
  | case1 lo hi hlt mid hmid ih =>
    rw [bisect, if_pos hlt]
    have hn : mid < n := by
      by_contra hge
      have hfalse := hafter mid (not_lt.mp hge) (by omega)
      exact absurd (hmid.symm.trans hfalse) (by simp)
    simp only [mid] at hmid ih hn ⊢
    rw [if_pos hmid]
    exact ih hn hhi hafter
  | case2 lo hi hlt mid hmid ih =>
    rw [bisect, if_pos hlt]
    have hn : n ≤ mid := by
      by_contra hlt'
      exact hmid (hbefore mid (not_le.mp hlt'))
    simp only [mid] at hmid ih hn ⊢
    rw [if_neg hmid]
    exact ih hlo hn (fun i hi hlt' => hafter i hi (by omega))
  | case3 lo hi hle =>
    rw [bisect, if_neg hle]
    omega

section

variable {α κ : Type} [LinearOrder κ]

/-- `_IsBeforeCursor`. -/
def isBeforeCursor (key : κ) (cursor : κ × Bool) : Bool :=
  if cursor.2 then key < cursor.1 else key ≤ cursor.1

/-- `_GetCursorOffset`. -/
def getCursorOffset (results : List (κ × α)) (cursor : κ × Bool) : ℕ :=
  bisect (fun mid => (results[mid]?).any fun record => isBeforeCursor record.1 cursor) 0
    results.length

/-- Results in the order of their keys, no two with the same. -/
def Sorted (results : List (κ × α)) : Prop := results.Pairwise fun a b => a.1 < b.1

/-- A cursor after a result stands at the next one. -/
theorem getCursorOffset_after {results : List (κ × α)} (h : Sorted results) {i : ℕ}
    (hi : i < results.length) : getCursorOffset results (results[i].1, false) = i + 1 := by
  refine bisect_spec (Nat.zero_le _) hi (fun j hj => ?_) (fun j hj hlt => ?_)
  · -- up to the result of the cursor
    have hle : results[j].1 ≤ results[i].1 := by
      rcases Nat.lt_or_eq_of_le (Nat.lt_succ_iff.mp hj) with hlt | rfl
      · exact le_of_lt (List.pairwise_iff_getElem.mp h j i (by omega) hi hlt)
      · exact le_rfl
    rw [List.getElem?_eq_getElem (by omega)]
    exact decide_eq_true hle
  · -- and after it
    have hgt := List.pairwise_iff_getElem.mp h i j hi hlt hj
    rw [List.getElem?_eq_getElem hlt]
    exact decide_eq_false (not_le.mpr hgt)

/-- Cursors are found by the keys of the results alone. -/
theorem getCursorOffset_congr {β : Type} {results : List (κ × α)} {results' : List (κ × β)}
    (h : results.map Prod.fst = results'.map Prod.fst) (cursor : κ × Bool) :
    getCursorOffset results cursor = getCursorOffset results' cursor := by
  have hlen := congrArg List.length h
  rw [List.length_map, List.length_map] at hlen
  unfold getCursorOffset
  rw [hlen]
  congr 1
  funext mid
  have hget := congrArg (fun keys : List κ => keys[mid]?) h
  simp only [List.getElem?_map] at hget
  have hany : ∀ {δ : Type} (l : List (κ × δ)), (l[mid]?).any
      (fun record => isBeforeCursor record.1 cursor) =
        ((l[mid]?).map Prod.fst).any (fun key => isBeforeCursor key cursor) := by
    intro δ l
    cases l[mid]? <;> rfl
  rw [hany, hany, hget]

/-- A cursor of the development server that stands before the result at a position of
the sorted results: without a position, or after a result. -/
def StandsAt (results : List (κ × α)) (cc : CompiledCursor κ) (n : ℕ) : Prop :=
  match cc.postfixPosition with
  | none => n = 0
  | some (key, before) => before = false ∧ getCursorOffset results (key, false) = n

/-! ### The cursor of one query -/

/-- `BaseDatastore._BATCH_SIZE`. -/
def batchSize : ℤ := 20

/-- `_MAXIMUM_RESULTS`. -/
def maximumResults : ℤ := 300

/-- `_MAX_QUERY_OFFSET`. -/
def maxQueryOffset : ℕ := 1000

/-- `ListCursor`, with what it keeps as a `BaseCursor`. -/
structure ListCursor (α κ : Type) where
  app : GoString
  results : List (κ × α)
  offset : ℕ := 0
  count : ℕ
  lastResult : Option κ
  persistedOffset : ℤ
  persistedCount : ℤ

/-- `_EncodeCompiledCursor`. -/
def encodeCompiledCursor (lastResult : Option κ) : CompiledCursor κ where
  postfixPosition := lastResult.map fun key => (key, false)

/-- The position of a start cursor among the results. -/
def startPosition (results : List (κ × α)) (start : Option (CompiledCursor κ)) : ℕ :=
  match start.bind CompiledCursor.postfixPosition with
  | none => 0
  | some position => getCursorOffset results position

/-- The position of an end cursor among the results. -/
def endPosition (results : List (κ × α)) : Option (CompiledCursor κ) → ℕ
  | none => results.length
  | some cc =>
    match cc.postfixPosition with
    | none => 0
    | some position => getCursorOffset results position

theorem StandsAt.congr {β : Type} {results : List (κ × α)} {results' : List (κ × β)}
    {cc : CompiledCursor κ} {n : ℕ} (h : results.map Prod.fst = results'.map Prod.fst)
    (hat : StandsAt results cc n) : StandsAt results' cc n := by
  obtain ⟨position⟩ := cc
  cases position with
  | none => exact hat
  | some position =>
    obtain ⟨key, before⟩ := position
    exact ⟨hat.1, (getCursorOffset_congr h (key, false)).symm.trans hat.2⟩

namespace ListCursor

/-- The constructor of a `ListCursor`, for a query with these results. -/
def init (query : QueryProto (CompiledCursor κ)) (results : List (κ × α)) : ListCursor α κ :=
  let queryOffset := (query.offset.getD 0).toInt
  let results' := pySlice results (startPosition results query.compiledCursor)
    (endPosition results query.endCompiledCursor)
  let results' := match query.limit with
    | none => results'
    | some limit =>
      -- what is skipped does not count against the limit
      let limit := limit.toInt + queryOffset
      if 0 ≤ limit ∧ limit < results'.length then pySlice results' 0 limit else results'
  { app := query.app
    results := results'
    count := results'.length
    lastResult := (query.compiledCursor.bind CompiledCursor.postfixPosition).map Prod.fst
    persistedOffset := queryOffset
    persistedCount := (query.limit.map Int32.toInt).getD batchSize }

/-- How many results an answer skips, of those that are to be skipped. -/
def skips (c : ListCursor α κ) (offset : ℕ) : ℕ :=
  min (min offset (c.count - c.offset)) maxQueryOffset

/-- The results that an answer returns after it has skipped these. -/
def batch (c : ListCursor α κ) (offset : ℕ) (count : ℤ) : List (κ × α) :=
  let position := c.offset + c.skips offset
  if min offset (c.count - c.offset) = c.skips offset ∧ count ≠ 0
  then pySlice c.results position (position + min count maximumResults) else []

/-- The cursor after an answer. -/
def moved (c : ListCursor α κ) (offset : ℕ) (count : ℤ) : ListCursor α κ :=
  let position := c.offset + c.skips offset + (c.batch offset count).length
  { c with
    offset := position
    lastResult := if position ≠ 0 then (c.results[position - 1]?).map Prod.fst else c.lastResult
    persistedOffset := c.persistedOffset - c.skips offset }

/-- `PopulateQueryResult`, with the `_PopulateQueryResult` of a `ListCursor`. -/
def populateQueryResult (c : ListCursor α κ) (cursorID : ℕ) (count deprecatedOffset : Option ℤ)
    (compile : Bool) : Except Error (QueryResult α (CompiledCursor κ) × ListCursor α κ) :=
  let count := count.getD c.persistedCount
  -- an offset that is given again has to be the one that is left
  if deprecatedOffset.any (c.persistedOffset ≠ ·) then
    .error (.new (("Invalid offset provided. Got " : GoString) ++
      (toString (deprecatedOffset.getD 0) : String) ++ (" expected " : GoString) ++
      (toString c.persistedOffset : String) ++ ("." : GoString)))
  else if c.persistedOffset < 0 then .error (.new "Offset must be >= 0")
  else
    let offset := c.persistedOffset.toNat
    let c' := c.moved offset count
    .ok (
      { cursor := if c'.offset < c'.count then some ⟨cursorID, c.app⟩ else none
        result := (c.batch offset count).map Prod.snd
        skippedResults :=
          if c.skips offset ≠ 0 then some (Int32.ofNat (c.skips offset)) else none
        moreResults := some (c'.offset < c'.count)
        compiledCursor := if compile then some (encodeCompiledCursor c'.lastResult) else none },
      c')

variable {c : ListCursor α κ} {full : List (κ × α)} {stop p offset : ℕ} {left : Option ℕ}

/-- A number of results to return that brings a query on, whose limit leaves this many. -/
def Enough (n : ℤ) : Option ℕ → Prop
  | none => 0 < n
  | some l => (l : ℤ) ≤ n

theorem Enough.nonneg {n : ℤ} {left : Option ℕ} (h : Enough n left) : 0 ≤ n := by
  cases left with
  | none => exact le_of_lt h
  | some l => exact le_trans (Int.natCast_nonneg l) h

/-- A cursor that has gone through the first `p` results of a query, may return `left`
more, and has `offset` to skip before that. -/
structure Stands (full : List (κ × α)) (stop p : ℕ) (left : Option ℕ) (offset : ℕ)
    (c : ListCursor α κ) : Prop where
  rest : c.results.drop c.offset = todo (full.take stop) p (left.map (· + offset))
  count : c.count = c.results.length
  inRange : c.offset ≤ c.results.length
  persistedOffset : c.persistedOffset = offset
  persistedCount : Enough c.persistedCount left
  standsAt : StandsAt full (encodeCompiledCursor c.lastResult) p
  lastResult : c.offset ≠ 0 → (c.results[c.offset - 1]?).map Prod.fst = c.lastResult

theorem pySlice_add {β : Type} (l : List β) (i : ℕ) {m : ℤ} (hm : 0 ≤ m) :
    pySlice l i (i + m) = (l.drop i).take m.toNat := by
  have hpos : ¬ ((i : ℤ) + m < 0) := by omega
  rw [pySlice, if_neg hpos, List.drop_take]
  congr 1
  omega

omit [LinearOrder κ] in
/-- The batch comes first of the results after the skipped ones. -/
theorem batch_isPrefix (c : ListCursor α κ) (offset : ℕ) {n : ℤ} (hn : 0 ≤ n) :
    c.batch offset n <+: (c.results.drop c.offset).drop (c.skips offset) := by
  unfold batch
  dsimp only
  split
  · rw [pySlice_add _ (c.offset + c.skips offset) (le_min hn (by decide)), List.drop_drop]
    exact List.take_prefix _ _
  · exact List.nil_prefix

omit [LinearOrder κ] in
/-- Nothing is returned before all has been skipped. -/
theorem skips_eq_of_batch {n : ℤ} (hn : 0 ≤ n) (hcount : c.count = c.results.length)
    (h : c.batch offset n ≠ []) : c.skips offset = offset := by
  have hlen := (c.batch_isPrefix offset hn).length_le
  have hpos := List.length_pos_iff.mpr h
  rw [List.length_drop, List.length_drop, ← hcount] at hlen
  unfold batch at h
  dsimp only at h
  split at h
  · next hall =>
    have hskips := hall.1
    omega
  · exact absurd rfl h

/-- A batch is within the limit. -/
theorem Stands.batch_le {n : ℤ} (h : c.Stands full stop p left offset) (hn : 0 ≤ n) :
    ∀ l, left = some l → (c.batch offset n).length ≤ l := by
  rintro l rfl
  by_cases hnil : c.batch offset n = []
  · rw [hnil]
    exact Nat.zero_le l
  · -- all of the offset has been skipped, and the limit is what is left of the results
    have hlen := (c.batch_isPrefix offset hn).length_le
    rw [skips_eq_of_batch hn h.count hnil, h.rest, drop_todo] at hlen
    have hl : ((some l).map (· + offset)).map (· - offset) = some l :=
      congrArg some (Nat.add_sub_cancel l offset)
    rw [hl] at hlen
    exact le_trans hlen (List.length_take_le l _)

/-- An answer that does not end the results goes on by at least one. -/
theorem Stands.progress {n : ℤ} (h : c.Stands full stop p left offset) (hn : 0 ≤ n)
    (hcount : Enough n left) (hmore : (c.moved offset n).offset < c.count) :
    c.offset < (c.moved offset n).offset := by
  change c.offset + c.skips offset + (c.batch offset n).length < c.count at hmore
  change c.offset < c.offset + c.skips offset + (c.batch offset n).length
  by_contra hzero
  -- an answer that skips nothing has nothing to skip, and one that returns nothing asks for none
  have hskips : c.skips offset = 0 := by omega
  have hbatch : c.batch offset n = [] := List.length_eq_zero_iff.mp (by omega)
  have hleft : 0 < c.count - c.offset := by omega
  obtain rfl : offset = 0 := by
    have hdef := hskips
    unfold skips maxQueryOffset at hdef
    omega
  -- a limit that has run out would have ended the results
  have hn' : 0 < n := by
    cases left with
    | none => exact hcount
    | some l =>
      have hlen := congrArg List.length h.rest
      rw [List.length_drop, length_todo, ← h.count] at hlen
      change c.count - c.offset = min (l + 0) _ at hlen
      change (l : ℤ) ≤ n at hcount
      omega
  have htake := pySlice_add c.results (c.offset + 0) (m := min n maximumResults)
    (le_min hn (by decide))
  rw [batch, hskips, if_pos ⟨Nat.zero_min _, ne_of_gt hn'⟩, htake, List.take_eq_nil_iff] at hbatch
  rcases hbatch with hmin | hnil
  · unfold maximumResults at hmin
    omega
  · have hlen := congrArg List.length hnil
    rw [List.length_drop, List.length_nil, ← h.count] at hlen
    omega

/-- What is left of the results after an answer. -/
theorem Stands.rest_moved {n : ℤ} (h : c.Stands full stop p left offset) :
    c.results.drop (c.moved offset n).offset =
      todo (full.take stop) (p + c.skips offset + (c.batch offset n).length)
        (left.map (· + offset - (c.skips offset + (c.batch offset n).length))) := by
  show c.results.drop (c.offset + c.skips offset + (c.batch offset n).length) = _
  rw [Nat.add_assoc, ← List.drop_drop, h.rest, drop_todo, Option.map_map, Nat.add_assoc]
  rfl

theorem Stands.count_le (h : c.Stands full stop p left offset) :
    c.count - c.offset ≤ full.length := by
  have hrest := (todo_isPrefix (full.take stop) p (left.map (· + offset))).length_le
  rw [← h.rest, List.length_drop, List.length_drop, List.length_take, ← h.count] at hrest
  omega

theorem Stands.moved_le {n : ℤ} (h : c.Stands full stop p left offset) (hn : 0 ≤ n) :
    (c.moved offset n).offset ≤ c.count := by
  have hlen := (c.batch_isPrefix offset hn).length_le
  have hin := h.inRange
  have hskips : c.skips offset ≤ c.count - c.offset :=
    le_trans (min_le_left _ _) (min_le_right _ _)
  rw [List.length_drop, List.length_drop, ← h.count] at hlen
  rw [← h.count] at hin
  show c.offset + c.skips offset + (c.batch offset n).length ≤ c.count
  omega

/-- The results of a cursor are those of the query. -/
theorem Stands.getElem?_results {i : ℕ} (h : c.Stands full stop p left offset)
    (hi : c.offset + i < c.results.length) :
    ∃ hlt : p + i < full.length, c.results[c.offset + i]? = some full[p + i] := by
  have hlen : i < (todo (full.take stop) p (left.map (· + offset))).length := by
    rw [← h.rest, List.length_drop]
    omega
  have hle := (todo_isPrefix (full.take stop) p (left.map (· + offset))).length_le
  rw [List.length_drop, List.length_take] at hle
  have hlt : p + i < full.length := by omega
  refine ⟨hlt, ?_⟩
  rw [← List.getElem?_drop, h.rest, List.getElem?_eq_getElem hlen,
    (todo_isPrefix _ _ _).getElem hlen, List.getElem_drop, List.getElem_take]

/-- A cursor that is compiled with an answer stands after what the answer went through. -/
theorem Stands.standsAt_moved {n : ℤ} (h : c.Stands full stop p left offset)
    (hsorted : Sorted full) (hn : 0 ≤ n) :
    StandsAt full (encodeCompiledCursor (c.moved offset n).lastResult)
      (p + c.skips offset + (c.batch offset n).length) := by
  have hle := h.moved_le hn
  change c.offset + c.skips offset + (c.batch offset n).length ≤ c.count at hle
  rw [h.count] at hle
  have hlast : (c.moved offset n).lastResult =
      if c.offset + c.skips offset + (c.batch offset n).length ≠ 0
      then (c.results[c.offset + c.skips offset + (c.batch offset n).length - 1]?).map Prod.fst
      else c.lastResult := rfl
  rw [hlast]
  cases hm : c.skips offset + (c.batch offset n).length with
  | zero =>
    -- the answer went through nothing
    rw [Nat.add_assoc, Nat.add_assoc, hm, Nat.add_zero, Nat.add_zero]
    by_cases hoffset : c.offset ≠ 0
    · rw [if_pos hoffset, h.lastResult hoffset]
      exact h.standsAt
    · rw [if_neg hoffset]
      exact h.standsAt
  | succ m =>
    -- its last result is the one before where it stands
    rw [Nat.add_assoc, hm] at hle
    obtain ⟨hlt, hget⟩ := h.getElem?_results (i := m) (by omega)
    rw [Nat.add_assoc, Nat.add_assoc, hm, if_pos (by omega),
      show c.offset + (m + 1) - 1 = c.offset + m from rfl, hget]
    exact ⟨rfl, getCursorOffset_after hsorted hlt⟩

/-- The cursor after an answer is as far as the answer went. -/
theorem Stands.moved {n : ℤ} (h : c.Stands full stop p left offset) (hsorted : Sorted full)
    (hn : Enough n left) :
    (c.moved offset n).Stands full stop
      (p + c.skips offset + ((c.batch offset n).map Prod.snd).length)
      (left.map (· - ((c.batch offset n).map Prod.snd).length)) (offset - c.skips offset) := by
  have hpos := hn.nonneg
  have hle := h.moved_le hpos
  have hskips : c.skips offset ≤ offset := le_trans (min_le_left _ _) (min_le_left _ _)
  rw [List.length_map]
  refine ⟨?_, h.count, h.count ▸ hle, ?_, ?_, h.standsAt_moved hsorted hpos, fun hne => ?_⟩
  · -- results are returned only when nothing is left to be skipped
    show c.results.drop (c.moved offset n).offset = _
    rw [h.rest_moved]
    congr 1
    cases left with
    | none => rfl
    | some l =>
      refine congrArg some ?_
      show l + offset - (c.skips offset + (c.batch offset n).length) =
        l - (c.batch offset n).length + (offset - c.skips offset)
      have hlimited := h.batch_le hpos l rfl
      by_cases hnil : c.batch offset n = []
      · rw [hnil, List.length_nil]
        omega
      · have hall := skips_eq_of_batch hpos h.count hnil
        omega
  · -- the offset that it checks is the one that is left
    show c.persistedOffset - (c.skips offset : ℤ) = _
    rw [h.persistedOffset]
    omega
  · -- and less is enough when less is left
    show Enough c.persistedCount _
    have hcount := h.persistedCount
    cases left with
    | none => exact hcount
    | some l =>
      change (l : ℤ) ≤ c.persistedCount at hcount
      show ((l - (c.batch offset n).length : ℕ) : ℤ) ≤ c.persistedCount
      omega
  · exact (if_pos hne).symm

/-- **An answer of the development server keeps to the protocol.** -/
theorem Stands.populate {n : ℤ} (cursorID : ℕ) (count deprecatedOffset : Option ℤ)
    (h : c.Stands full stop p left offset) (hsorted : Sorted full) (hn : Enough n left)
    (hcount : count.getD c.persistedCount = n)
    (hoffset : ∀ o, deprecatedOffset = some o → o = offset) :
    ∃ res, c.populateQueryResult cursorID count deprecatedOffset true =
        .ok (res, c.moved offset n) ∧
      res.result = (c.batch offset n).map Prod.snd ∧
      res.cursor = (if (c.moved offset n).offset < c.count then some ⟨cursorID, c.app⟩ else none) ∧
      res.getMoreResults = decide ((c.moved offset n).offset < c.count) ∧
      Fits (StandsAt full) ((full.take stop).map Prod.snd) p left offset (c.skips offset) res := by
  have hpos := hn.nonneg
  have hdeprecated : deprecatedOffset.any (c.persistedOffset ≠ ·) = false := by
    rw [h.persistedOffset]
    cases ho : deprecatedOffset with
    | none => rfl
    | some o => rw [hoffset o ho]; simp
  have hneg : ¬ c.persistedOffset < 0 := by
    rw [h.persistedOffset]
    omega
  have htoNat : c.persistedOffset.toNat = offset := by
    rw [h.persistedOffset]
    rfl
  unfold populateQueryResult
  simp only [hdeprecated, Bool.false_eq_true, if_false, hneg, htoNat, hcount, if_true]
  refine ⟨_, rfl, rfl, rfl, rfl, ?_⟩
  have hskips : c.skips offset ≤ offset := le_trans (min_le_left _ _) (min_le_left _ _)
  have hmax : c.skips offset ≤ 1000 := min_le_right _ _
  have hle := h.moved_le hpos
  have hbatch := c.batch_isPrefix offset hpos
  rw [h.rest, drop_todo] at hbatch
  have hlen : c.count - c.offset ≤ (full.take stop).length - p := by
    have hrest := (todo_isPrefix (full.take stop) p (left.map (· + offset))).length_le
    rwa [← h.rest, List.length_drop, List.length_drop, ← h.count] at hrest
  have hleft : c.skips offset ≤ c.count - c.offset :=
    le_trans (min_le_left _ _) (min_le_right _ _)
  refine ⟨?_, hskips, ?_, ?_, fun hne => ?_, fun l hl => ?_, fun hend => ?_, fun hmore => ?_, ?_⟩
  · -- a number of zero is not sent
    show ((if c.skips offset ≠ 0 then some (Int32.ofNat (c.skips offset)) else none).getD
      0).toInt = _
    by_cases hzero : c.skips offset = 0
    · rw [hzero]
      rfl
    · rw [if_pos hzero]
      exact Int32.toInt_ofNat_of_lt' (by omega)
  · rw [List.length_map]
    omega
  · rw [← List.map_drop]
    exact (hbatch.trans (todo_isPrefix _ _ _)).map Prod.snd
  · exact skips_eq_of_batch hpos h.count (fun hnil => hne (by rw [hnil]; rfl))
  · rw [List.length_map]
    exact h.batch_le hpos l hl
  · -- no results are left: the query has run out of them, or of its limit
    have hlast : ¬ (c.moved offset n).offset < c.count := of_decide_eq_false hend
    have hnil : c.results.drop (c.moved offset n).offset = [] :=
      List.drop_eq_nil_of_le (by rw [← h.count]; exact not_lt.mp hlast)
    rw [h.rest_moved, todo_eq_nil_iff] at hnil
    rw [List.length_map, List.length_map]
    by_cases hempty : c.batch offset n = []
    · rw [hempty, List.length_nil, Nat.add_zero] at hnil ⊢
      rcases hnil with hout | hlimit
      · exact ⟨.inr hout, .inl hout⟩
      · obtain ⟨l, rfl, hl⟩ := Option.map_eq_some_iff.mp hlimit
        have hl' : l + offset - (c.skips offset + 0) = 0 := hl
        exact ⟨.inl (by omega), .inr (congrArg some (by omega))⟩
    · have hall := skips_eq_of_batch hpos h.count hempty
      refine ⟨.inl hall, ?_⟩
      rcases hnil with hout | hlimit
      · exact .inl hout
      · obtain ⟨l, rfl, hl⟩ := Option.map_eq_some_iff.mp hlimit
        have hl' : l + offset - (c.skips offset + (c.batch offset n).length) = 0 := hl
        have hbound := h.batch_le hpos l rfl
        exact .inr (congrArg some (by omega))
  · have hlt : (c.moved offset n).offset < c.count := of_decide_eq_true hmore
    exact ⟨⟨cursorID, c.app⟩, if_pos hlt⟩
  · exact ⟨_, rfl, by rw [List.length_map]; exact h.standsAt_moved hsorted hpos⟩

theorem startPosition_eq {results : List (κ × α)} {first : Option (CompiledCursor κ)} {n : ℕ}
    (h : Starts (StandsAt results) first n) : startPosition results first = n := by
  unfold startPosition
  cases first with
  | none => exact Eq.symm h
  | some cc =>
    obtain ⟨position⟩ := cc
    cases position with
    | none => exact Eq.symm h
    | some position =>
      obtain ⟨key, before⟩ := position
      obtain ⟨rfl, hoffset⟩ := h
      exact hoffset

/-- The cursor of a new query has its results before it, from the start cursor up to the
end cursor. -/
theorem init_stands (query : QueryProto (CompiledCursor κ)) {results : List (κ × α)} {n : ℕ}
    (hstart : Starts (StandsAt results) query.compiledCursor n)
    (hoffset : 0 ≤ (query.offset.getD 0).toInt) (hlimit : ∀ l, query.limit = some l → 0 ≤ l.toInt) :
    (init query results).Stands results (endPosition results query.endCompiledCursor) n
      (query.limit.map fun l => l.toInt.toNat) (query.offset.getD 0).toInt.toNat := by
  refine ⟨?_, rfl, Nat.zero_le _, (Int.toNat_of_nonneg hoffset).symm, ?_, ?_,
    fun hne => absurd rfl hne⟩
  · -- the results between the cursors, as many as the offset and the limit come to
    have hslice : pySlice results (startPosition results query.compiledCursor)
        (endPosition results query.endCompiledCursor) =
          (results.take (endPosition results query.endCompiledCursor)).drop n := by
      have hpos : ¬ ((endPosition results query.endCompiledCursor : ℤ) < 0) := by omega
      rw [pySlice, if_neg hpos, startPosition_eq hstart]
      rfl
    show (init query results).results.drop 0 = _
    rw [List.drop_zero, init]
    dsimp only
    rw [hslice]
    cases hl : query.limit with
    | none => rfl
    | some l =>
      have hpos := hlimit l hl
      show (if _ then _ else _) = ((results.take _).drop n).take (l.toInt.toNat + _)
      have hsum : (l.toInt + (query.offset.getD 0).toInt).toNat =
          l.toInt.toNat + (query.offset.getD 0).toInt.toNat := by omega
      have hneg : ¬ (l.toInt + (query.offset.getD 0).toInt < 0) := by omega
      rw [← hsum, pySlice, if_neg hneg, List.drop_zero]
      split
      · rfl
      · exact (List.take_of_length_le (by omega)).symm
  · cases hl : query.limit with
    | none => exact show (0 : ℤ) < (query.limit.map Int32.toInt).getD batchSize by rw [hl]; decide
    | some l =>
      show ((l.toInt.toNat : ℕ) : ℤ) ≤ (query.limit.map Int32.toInt).getD batchSize
      rw [hl]
      exact le_of_eq (Int.toNat_of_nonneg (hlimit l hl))
  · -- nothing has been returned: its last result is that of the start cursor
    show StandsAt results (encodeCompiledCursor
      ((query.compiledCursor.bind CompiledCursor.postfixPosition).map Prod.fst)) n
    cases hcc : query.compiledCursor with
    | none =>
      rw [hcc] at hstart
      exact hstart
    | some cc =>
      rw [hcc] at hstart
      obtain ⟨position⟩ := cc
      cases position with
      | none => exact hstart
      | some position =>
        obtain ⟨key, before⟩ := position
        exact ⟨rfl, hstart.2⟩

end ListCursor

end

end PluginsDatastore
