import PluginsDatastore.Appengine.Query

/-!
# Query results in batches

The service answers a query batch by batch: a `RunQuery` call and then as many
`Next` calls as it takes, any of which may fail. `Replies` is the sequence of
these answers, and `Iterator` is the client's end of it, as in `query.go`.

What an iterator will yield does not depend on the batches: `Iterator.results`
are the results still to come and `Iterator.final` the error that follows them
on this and every later call of `next`, `Done` if nothing failed. The
specification of `next` is `next_of_results_cons` and `next_of_results_nil`,
and `getAllLoop_keysOnly` and `getAllLoop_load` say what the loop of
`Query.GetAll` makes of the iterator.
-/

namespace PluginsDatastore

/-- The service's answers to one query. -/
inductive Replies (α : Type) : Type
  | fail (e : Error)
  /-- A batch with `more_results` unset. -/
  | last (batch : List α)
  /-- A batch with `more_results` set, and the answers to the `Next` calls. -/
  | more (batch : List α) (rest : Replies α)

namespace Replies

variable {α : Type}

/-- The results of all batches up to a failure. -/
def results : Replies α → List α
  | fail _ => []
  | last batch => batch
  | more batch rest => batch ++ rest.results

/-- How the answers end. -/
def final : Replies α → Error
  | fail e => e
  | last _ => .done
  | more _ rest => rest.final

end Replies

/-- `datastore.Iterator`: a sticky error, the current batch with the number of
its results already returned, and the answers to come. -/
structure Iterator (α : Type) where
  err : Option Error := none
  batch : List α := []
  i : ℕ := 0
  rest : Option (Replies α) := none
  inBatch : i ≤ batch.length := by exact Nat.zero_le _

namespace Iterator

variable {α β : Type}

/-- The iterator after an answer of the service. -/
def receive : Replies α → Iterator α
  | .fail e => { err := some e }
  | .last batch => { batch := batch }
  | .more batch rest => { batch := batch, rest := some rest }

/-- The loop of `Iterator.next` that issues `Next` calls until a batch has a
result or nothing more is to come. -/
def refill : Replies α → Iterator α
  -- an empty batch may come with more to come
  | .more [] rest => refill rest
  | .last [] => { err := some .done }
  | r => receive r

/-- The iterator with a result left in its batch, or with an error set. -/
def advance (t : Iterator α) : Iterator α :=
  if t.i = t.batch.length then
    match t.rest with
    | none => { t with err := some .done }
    | some r => refill r
  else t

/-- `Iterator.next`. -/
def next (t : Iterator α) : Except Error α × Iterator α :=
  match t.err with
  | some e => (.error e, t)
  | none =>
    let t := t.advance
    match t.err with
    | some e => (.error e, t)
    | none =>
      if h : t.i < t.batch.length then (.ok t.batch[t.i], { t with i := t.i + 1, inBatch := h })
      else (.error .done, t) -- not reached: `advance` leaves a result or sets an error

/-! ### What an iterator will yield -/

/-- The results still to come. -/
def results (t : Iterator α) : List α :=
  match t.err with
  | some _ => []
  | none => t.batch.drop t.i ++ (t.rest.map Replies.results).getD []

/-- The error that ends the iteration. -/
def final (t : Iterator α) : Error :=
  match t.err with
  | some e => e
  | none => (t.rest.map Replies.final).getD .done

@[simp] theorem results_receive (r : Replies α) : (receive r).results = r.results := by
  cases r <;> simp [receive, results, Replies.results]

@[simp] theorem final_receive (r : Replies α) : (receive r).final = r.final := by
  cases r <;> rfl

theorem results_of_err {t : Iterator α} {e : Error} (h : t.err = some e) : t.results = [] := by
  rw [results, h]

theorem final_of_err {t : Iterator α} {e : Error} (h : t.err = some e) : t.final = e := by
  rw [final, h]

theorem err_of_results {t : Iterator α} {x : α} {xs : List α} (h : t.results = x :: xs) :
    t.err = none := by
  cases hte : t.err with
  | none => rfl
  | some e =>
    rw [results_of_err hte] at h
    exact absurd h (by simp)

/-- An iterator with a result left in its batch has that result to come. -/
theorem results_of_lt {t : Iterator α} (herr : t.err = none) (hi : t.i < t.batch.length) :
    t.results = t.batch[t.i] :: { t with i := t.i + 1, inBatch := hi : Iterator α }.results := by
  simp only [results, herr, List.drop_eq_getElem_cons hi, List.cons_append]

/-- What `refill` reaches: the same results and the same end, and a batch with a
result in it unless an error is set. -/
theorem refill_spec (r : Replies α) :
    (refill r).results = r.results ∧ (refill r).final = r.final ∧
      ((refill r).err = none → (refill r).i < (refill r).batch.length) := by
  induction r with
  | fail e => exact ⟨rfl, rfl, fun h => absurd h (by simp [refill, receive])⟩
  | last batch =>
    cases batch with
    | nil => exact ⟨rfl, rfl, fun h => absurd h (by simp [refill])⟩
    | cons x xs => exact ⟨results_receive _, final_receive _, fun _ => Nat.succ_pos _⟩
  | more batch rest ih =>
    cases batch with
    | nil => exact ih -- one more round of the loop
    | cons x xs => exact ⟨results_receive _, final_receive _, fun _ => Nat.succ_pos _⟩

/-- `advance` changes neither the results to come nor the end, and leaves a
result in the batch unless an error is set. -/
theorem advance_spec {t : Iterator α} (herr : t.err = none) :
    t.advance.results = t.results ∧ t.advance.final = t.final ∧
      (t.advance.err = none → t.advance.i < t.advance.batch.length) := by
  obtain ⟨err, batch, i, rest, hin⟩ := t
  obtain rfl : err = none := herr
  rw [advance]
  split
  · next hi =>
    -- the batch is used up
    have hdrop : batch.drop i = [] := List.drop_eq_nil_of_le (Nat.le_of_eq hi.symm)
    cases rest with
    | none =>
      refine ⟨?_, rfl, fun h => absurd h (by simp)⟩
      simp [results, hdrop]
    | some r =>
      obtain ⟨hres, hfin, hlt⟩ := refill_spec r
      refine ⟨?_, hfin, hlt⟩
      show (refill r).results = batch.drop i ++ r.results
      rw [hres, hdrop, List.nil_append]
  · next hi => exact ⟨rfl, rfl, fun _ => Nat.lt_of_le_of_ne hin hi⟩

/-- **`next` with results to come** yields the first of them. -/
theorem next_of_results_cons {t : Iterator α} {x : α} {xs : List α} (h : t.results = x :: xs) :
    ∃ t', t.next = (.ok x, t') ∧ t'.results = xs ∧ t'.final = t.final := by
  have herr := err_of_results h
  obtain ⟨hres, hfin, hlt⟩ := advance_spec herr
  -- there are results to come after `advance`, so it has set no error
  have hadv := err_of_results (hres.trans h)
  have hi := hlt hadv
  rw [h, results_of_lt hadv hi, List.cons.injEq] at hres
  refine ⟨{ t.advance with i := t.advance.i + 1, inBatch := hi }, ?_, hres.2, hfin⟩
  simp only [next, herr, hadv, dif_pos hi, hres.1]

/-- **`next` with no results to come** yields the error that ends the iteration,
and goes on yielding it. -/
theorem next_of_results_nil {t : Iterator α} (h : t.results = []) :
    ∃ t', t.next = (.error t.final, t') ∧ t'.results = [] ∧ t'.final = t.final := by
  cases herr : t.err with
  | some e =>
    -- the error is sticky
    refine ⟨t, ?_, h, rfl⟩
    rw [final_of_err herr]
    simp only [next, herr]
  | none =>
    obtain ⟨hres, hfin, hlt⟩ := advance_spec herr
    cases hadv : t.advance.err with
    | none =>
      -- then a result would be left in the batch
      rw [h, results_of_lt hadv (hlt hadv)] at hres
      exact absurd hres (by simp)
    | some e =>
      refine ⟨t.advance, ?_, results_of_err hadv, hfin⟩
      rw [← hfin, final_of_err hadv]
      simp only [next, herr, hadv]

/-! ### The loop of `Query.GetAll` -/

/-- The loop of `Query.GetAll`. `load` is `loadEntity` into a new element; the
mismatch it may report is kept and does not stop the loop. At most as many rounds
are made as the iterator has results, and one to see that there are no more. -/
def getAllLoop (keysOnly : Bool) (load : List Property → β × Option Error) :
    ℕ → Iterator EntityProto → List Key → Slice β → Option Error →
      List Key × Slice β × Option Error
  | 0, _, keys, dst, errFieldMismatch => (keys, dst, errFieldMismatch)
  | n + 1, t, keys, dst, errFieldMismatch =>
    match t.next with
    | (.error err, _) =>
      if err = .done then (keys, dst, errFieldMismatch) else (keys, dst, some err)
    | (.ok (k, e), t) =>
      if keysOnly then getAllLoop keysOnly load n t (keys ++ [k]) dst errFieldMismatch
      else
        let (ev, err) := load e
        -- the last mismatch is the one that is reported
        getAllLoop keysOnly load n t (keys ++ [k]) (dst.append ev) (err <|> errFieldMismatch)

/-- How `GetAll` reports the end of the iteration. -/
def endError (e : Error) : Option Error := if e = .done then none else some e

variable {load : List Property → β × Option Error} {t : Iterator EntityProto} {n : ℕ}
  {keys : List Key} {dst : Slice β}

theorem getAllLoop_end {keysOnly : Bool} (h : t.results = []) :
    getAllLoop keysOnly load (n + 1) t keys dst none = (keys, dst, endError t.final) := by
  obtain ⟨t', hnext, -, -⟩ := next_of_results_nil h
  by_cases hdone : t.final = .done <;> simp [getAllLoop, hnext, endError, hdone]

/-- **`GetAll` of a keys-only query** gathers the keys of all results up to the
end, whatever the batches were, and leaves its destination alone. -/
theorem getAllLoop_keysOnly (hn : t.results.length < n) :
    getAllLoop true load n t keys dst none =
      (keys ++ t.results.map Prod.fst, dst, endError t.final) := by
  -- by induction on the rounds, of which there is one more than there are results
  induction n generalizing t keys with
  | zero => exact absurd hn (Nat.not_lt_zero _)
  | succ n ih =>
    cases hres : t.results with
    | nil =>
      rw [getAllLoop_end hres, List.map_nil, List.append_nil]
    | cons x xs =>
      obtain ⟨t', hnext, hres', hfin'⟩ := next_of_results_cons hres
      rw [hres, List.length_cons] at hn
      have hrec := @ih t' (keys ++ [x.1])
        (by rw [hres']; exact Nat.lt_of_succ_lt_succ hn)
      rw [getAllLoop, hnext]
      simp only [if_true, hrec, hres', hfin', List.map_cons, List.append_assoc,
        List.singleton_append]

/-- **`GetAll` of elements that load** gathers the keys of all results up to the
end, whatever the batches were, and appends the loaded elements. -/
theorem getAllLoop_load (hn : t.results.length < n)
    (hload : ∀ e ∈ t.results, (load e.2).2 = none) :
    getAllLoop false load n t keys dst none =
      (keys ++ t.results.map Prod.fst,
        (t.results.map fun e => (load e.2).1).foldl Slice.append dst, endError t.final) := by
  induction n generalizing t keys dst with
  | zero => exact absurd hn (Nat.not_lt_zero _)
  | succ n ih =>
    cases hres : t.results with
    | nil =>
      rw [getAllLoop_end hres, List.map_nil, List.append_nil, List.map_nil, List.foldl_nil]
    | cons x xs =>
      obtain ⟨t', hnext, hres', hfin'⟩ := next_of_results_cons hres
      rw [hres, List.length_cons] at hn
      rw [hres] at hload
      have hx : (load x.2).2 = none := hload x List.mem_cons_self
      have hrec := @ih t' (keys ++ [x.1]) (dst.append (load x.2).1)
        (by rw [hres']; exact Nat.lt_of_succ_lt_succ hn)
        (by rw [hres']; exact fun e he => hload e (List.mem_cons_of_mem x he))
      rw [getAllLoop, hnext]
      simp only [Bool.false_eq_true, if_false, hx, Option.orElse_eq_orElse, Option.orElse_none,
        hrec, hres', hfin', List.map_cons, List.append_assoc, List.singleton_append,
        List.foldl_cons]

end Iterator

end PluginsDatastore
