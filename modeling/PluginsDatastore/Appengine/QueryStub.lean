import Mathlib.Logic.Function.Basic
import PluginsDatastore.Appengine.ListCursor
import PluginsDatastore.Appengine.Service

/-!
# The development server and its clients

The development server has a store, which its clients write with `Put` and `Delete`,
and keeps the cursors of the queries that go on in a table, whose ids it hands out
(`QueryStub`). What a query finds in a state of the store is a parameter, `results`.

A client that follows the protocol is answered as `Answers.Conforms` asks, over the
results that its query has when `RunQuery` is called, whatever the other clients read or
write between its calls, as long as they do not use its handle (`QueryStub.serves`). It is
failed only by a call that is not answered in time.
-/

namespace PluginsDatastore

open Calls

section

variable {α κ : Type} [LinearOrder κ]

/-- What the development server keeps: the store, the cursors of the queries that go on by
their ids, and the id that is next given out. -/
structure QueryStub (α κ : Type) where
  store : Store
  nextCursor : ℕ := 1
  queryCursors : ℕ → Option (ListCursor α κ) := fun _ => none

/-- A call of a client. -/
inductive StubCall (κ : Type) : Type
  | put (entities : List EntityProto)
  | delete (keys : List Key)
  | runQuery (query : QueryProto (CompiledCursor κ))
  | next (req : NextRequest)

/-- The call does not use the handle with this id. -/
def StubCall.Avoids (id : ℕ) : StubCall κ → Prop
  | .next req => req.cursor.cursor ≠ id
  | _ => True

/-- The error of a call that is not answered in time. -/
def deadlineExceeded : Error := .new "Canceled: Deadline exceeded (timeout)"

namespace QueryStub

/-- `_Dynamic_Put`, outside a transaction. The service completes the keys. -/
def put (svc : Service) (s : QueryStub α κ) (entities : List EntityProto) : QueryStub α κ :=
  { s with store := entities.foldl (fun σ e => (svc.exec σ (.put e.1 e.2)).2) s.store }

/-- `_Dynamic_Delete`, outside a transaction. -/
def delete (s : QueryStub α κ) (keys : List Key) : QueryStub α κ :=
  { s with store := s.store.eraseAll keys }

/-- `_Dynamic_RunQuery`. -/
def runQuery (results : Store → Query → List (κ × α)) (s : QueryStub α κ)
    (query : QueryProto (CompiledCursor κ)) :
    Except Error (QueryResult α (CompiledCursor κ)) × QueryStub α κ :=
  let id := s.nextCursor
  let cursor := ListCursor.init query (results s.store query.query)
  let s := { s with nextCursor := id + 1 }
  match cursor.populateQueryResult id none (some (query.offset.getD 0).toInt) query.compile with
  | .error err => (.error err, s)
  | .ok (res, cursor) =>
    (.ok res, if res.cursor.isSome
      then { s with queryCursors := Function.update s.queryCursors id (some cursor) } else s)

/-- `_Dynamic_Next`. -/
def next (s : QueryStub α κ) (req : NextRequest) :
    Except Error (QueryResult α (CompiledCursor κ)) × QueryStub α κ :=
  let id := req.cursor.cursor
  match (s.queryCursors id).filter (·.app = req.cursor.app) with
  | none => (.error (.new (("Cursor " : GoString) ++ (toString id : String) ++
      (" not found" : GoString))), s)
  | some cursor =>
    match cursor.populateQueryResult id (req.count.map Int32.toInt)
        (req.offset.map Int32.toInt) req.compile with
    | .error err => (.error err, s)
    | .ok (res, cursor) =>
      let entry := if res.cursor.isSome then some cursor else none
      (.ok res, { s with queryCursors := Function.update s.queryCursors id entry })

variable (svc : Service) (results : Store → Query → List (κ × α))

/-- The state after a call. -/
def perform (s : QueryStub α κ) : StubCall κ → QueryStub α κ
  | .put entities => s.put svc entities
  | .delete keys => s.delete keys
  | .runQuery query => (s.runQuery results query).2
  | .next req => (s.next req).2

/-- The answers to the `Next` calls of a client. Before each of them the other clients
make the calls of one of the lists, and after the last one it is not answered in time. -/
def answers : List (List (StubCall κ)) → QueryStub α κ → NextRequest →
    Answers α (CompiledCursor κ)
  | [], _, _ => .fail deadlineExceeded
  | calls :: meanwhile, s, req =>
    match (calls.foldl (perform svc results) s).next req with
    | (.error err, _) => .fail err
    | (.ok res, s) => .result res (answers meanwhile s)

/-- The answers to a query of a client. -/
def serve (s : QueryStub α κ) (meanwhile : List (List (StubCall κ)))
    (query : QueryProto (CompiledCursor κ)) : Answers α (CompiledCursor κ) :=
  match s.runQuery results query with
  | (.error err, _) => .fail err
  | (.ok res, s) => .result res (answers svc results meanwhile s)

/-! ### A handle is its client's own -/

/-- The handle has been given out and stands for the cursor. -/
structure Holds (s : QueryStub α κ) (id : ℕ) (cursor : ListCursor α κ) : Prop where
  entry : s.queryCursors id = some cursor
  old : id < s.nextCursor

variable {svc : Service} {results : Store → Query → List (κ × α)} {s : QueryStub α κ} {id : ℕ}
  {c : ListCursor α κ}

/-- **The calls of others leave a handle as it is.** New handles have new ids, and a cursor
keeps its results when the store is written. -/
theorem Holds.perform {call : StubCall κ} (h : s.Holds id c) (hcall : call.Avoids id) :
    (s.perform svc results call).Holds id c := by
  have hold := h.old
  cases call with
  | put entities => exact ⟨h.entry, hold⟩
  | delete keys => exact ⟨h.entry, hold⟩
  | runQuery query =>
    unfold QueryStub.perform runQuery
    dsimp only
    split
    · exact ⟨h.entry, Nat.lt_succ_of_lt hold⟩
    · split
      · exact ⟨(Function.update_of_ne (Nat.ne_of_lt hold) _ _).trans h.entry,
          Nat.lt_succ_of_lt hold⟩
      · exact ⟨h.entry, Nat.lt_succ_of_lt hold⟩
  | next req =>
    have hne : id ≠ req.cursor.cursor := fun heq => hcall heq.symm
    unfold QueryStub.perform next
    dsimp only
    split
    · exact h
    · split
      · exact h
      · exact ⟨(Function.update_of_ne hne _ _).trans h.entry, hold⟩

theorem Holds.foldl_perform {calls : List (StubCall κ)} (h : s.Holds id c)
    (hcalls : ∀ call ∈ calls, call.Avoids id) :
    (calls.foldl (QueryStub.perform svc results) s).Holds id c := by
  induction calls generalizing s with
  | nil => exact h
  | cons call calls ih =>
    exact ih (h.perform (hcalls call List.mem_cons_self))
      (fun call' hmem => hcalls call' (List.mem_cons_of_mem call hmem))

/-! ### The development server keeps to the protocol -/

variable {E : Error → Prop} {full : List (κ × α)} {stop p offset : ℕ} {left : Option ℕ}

/-- **A client that follows the protocol is answered** from the results of its query, as
often as these take or until a call is not answered in time. -/
theorem answers_conform {meanwhile : List (List (StubCall κ))} {req : NextRequest}
    (hsorted : Sorted full) (hmeanwhile : ∀ calls ∈ meanwhile, ∀ call ∈ calls, call.Avoids id)
    (hlong : E deadlineExceeded ∨ c.count - c.offset ≤ meanwhile.length)
    (hmore : c.offset < c.count) (hholds : s.Holds id c)
    (hstands : c.Stands full stop p left offset) (hcursor : req.cursor = ⟨id, c.app⟩)
    (hcompile : req.compile = true) (hoffset : (req.offset.getD 0).toInt = offset)
    (hcount : req.Counts left) :
    (answers svc results meanwhile s req).Conforms E (StandsAt full)
      ((full.take stop).map Prod.snd) p left offset := by
  -- by induction on the answers to come, each of which finds the cursor as the last one left it
  induction meanwhile generalizing s c p left offset req with
  | nil => exact hlong.resolve_right (by rw [List.length_nil]; omega)
  | cons calls meanwhile ih =>
    have hholds' : (calls.foldl (QueryStub.perform svc results) s).Holds id c :=
      hholds.foldl_perform (hmeanwhile calls List.mem_cons_self)
    have hfilter : ((calls.foldl (QueryStub.perform svc results) s).queryCursors
        req.cursor.cursor).filter (·.app = req.cursor.app) = some c := by
      rw [hcursor, hholds'.entry]
      exact Option.filter_some_pos (decide_eq_true rfl)
    -- a `Next` call without a count asks for as many as the query began with
    have henough : ListCursor.Enough ((req.count.map Int32.toInt).getD c.persistedCount) left := by
      have hpersisted := hstands.persistedCount
      cases left with
      | none =>
        have hnone : req.count = none := hcount
        rw [hnone]
        exact hpersisted
      | some l =>
        obtain ⟨count, hreq, hle⟩ := hcount
        rw [hreq]
        exact hle
    have hdeprecated : ∀ o, req.offset.map Int32.toInt = some o → o = offset := by
      intro o ho
      obtain ⟨o', ho', rfl⟩ := Option.map_eq_some_iff.mp ho
      rw [ho'] at hoffset
      exact hoffset
    obtain ⟨res, hres, hresult, hhandle, hmoreres, hfits⟩ :=
      hstands.populate id (req.count.map Int32.toInt) (req.offset.map Int32.toInt) hsorted henough
        rfl hdeprecated
    have hmoved := hstands.moved hsorted henough
    rw [answers, next]
    dsimp only
    rw [hfilter, hcursor, hcompile]
    dsimp only
    rw [hres]
    refine ⟨_, hfits, fun hgo req' hfollows => ?_⟩
    have hlt : (c.moved offset ((req.count.map Int32.toInt).getD c.persistedCount)).offset <
        c.count := of_decide_eq_true (hmoreres.symm.trans hgo)
    have hprogress := hstands.progress henough.nonneg henough hlt
    rw [if_pos hlt] at hhandle
    -- the cursor stays open, and the client calls again with its handle
    have hcursor' : req'.cursor = ⟨id, c.app⟩ :=
      Option.some.inj (hfollows.cursor.symm.trans hhandle)
    rw [hresult] at hfollows ⊢
    refine ih (fun calls' hmem => hmeanwhile calls' (List.mem_cons_of_mem calls hmem)) ?_ hlt
      ⟨?_, hholds'.old⟩ hmoved hcursor' hfollows.compile hfollows.offset hfollows.count
    · -- every answer takes at least one of the results
      refine hlong.imp_right fun hlong => ?_
      show c.count - (c.moved offset _).offset ≤ meanwhile.length
      rw [List.length_cons] at hlong
      omega
    · rw [hhandle]
      exact Function.update_self _ _ _

/-- The other clients leave the handle alone that is given out next, and the client is
answered in time `n` times, unless the error of that is among those expected. -/
structure Attends (E : Error → Prop) (s : QueryStub α κ) (meanwhile : List (List (StubCall κ)))
    (n : ℕ) : Prop where
  avoids : ∀ calls ∈ meanwhile, ∀ call ∈ calls, call.Avoids s.nextCursor
  long : E deadlineExceeded ∨ n ≤ meanwhile.length

/-- **The development server serves the queries of a client**, over the results as they
are at the `RunQuery` call, whatever is written meanwhile. It does not fail the client if
it answers at least as often as there are results. -/
theorem serves {q : Query} {last : Option (CompiledCursor κ)}
    {meanwhile : List (List (StubCall κ))} (appID : GoString) (hsorted : Sorted (results s.store q))
    (h : s.Attends E meanwhile (results s.store q).length) :
    ServesQuery E (StandsAt (results s.store q))
      (((results s.store q).take (endPosition (results s.store q) last)).map Prod.snd) q last appID
      (s.serve svc results meanwhile) := by
  intro b start req hb hlast hstart hoffset hreq
  obtain ⟨hquery, hleft, hlimit, hreqoff, hfirst, hend, hcompile⟩ := BoundedQuery.request_ok hreq
  have hstands := ListCursor.init_stands req (by rw [hfirst]; exact hstart)
    (by rw [hreqoff]; exact hoffset) hlimit
  rw [hend, hlast, hleft, hreqoff] at hstands
  obtain ⟨res, hres, hresult, hhandle, hmoreres, hfits⟩ :=
    hstands.populate s.nextCursor none (some (req.offset.getD 0).toInt) hsorted
      hstands.persistedCount rfl
      (fun o ho => by rw [← Option.some.inj ho, hreqoff, Int.toNat_of_nonneg hoffset])
  have hmoved := hstands.moved hsorted hstands.persistedCount
  rw [serve, runQuery, hquery, hb]
  dsimp only
  rw [hcompile, hres]
  refine ⟨_, hfits, fun hgo req' hfollows => ?_⟩
  have hlt := of_decide_eq_true (hmoreres.symm.trans hgo)
  rw [if_pos hlt] at hhandle
  have hcursor : req'.cursor = ⟨s.nextCursor, (ListCursor.init req (results s.store q)).app⟩ :=
    Option.some.inj (hfollows.cursor.symm.trans hhandle)
  -- the query goes on, so its cursor is entered in the table
  have hsome : res.cursor.isSome = true := by
    rw [hhandle]
    rfl
  rw [hresult] at hfollows ⊢
  rw [if_pos hsome]
  exact answers_conform hsorted h.avoids (h.long.imp_right (le_trans hmoved.count_le)) hlt
    ⟨Function.update_self _ _ _, Nat.lt_succ_self _⟩ hmoved hcursor hfollows.compile
    hfollows.offset hfollows.count

end QueryStub

end

end PluginsDatastore
