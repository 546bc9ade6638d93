import PluginsDatastore.Appengine.Datastore
import PluginsDatastore.Appengine.Reference

/-!
# Queries as remote calls

What `Query.Count`, `Query.Run` and `Iterator.Next` of `query.go` say to the
datastore: one `RunQuery` call, and `Next` calls for as long as the answers set
`more_results`. The number of results to skip and to return travels with the
calls, in 32-bit integers that the client keeps up to date.

The service's side of one query is a tree, `Answers`: each answer comes with the
answers to whatever `Next` call follows it. Trees are finite, so a service may
answer in any way but not go on for ever, and the loops of the client are by
recursion on the tree.
-/

namespace PluginsDatastore

/-- `pb.Cursor`: the handle by which a `Next` call refers to a query. -/
structure Handle where
  cursor : ℕ
  app : GoString
  deriving DecidableEq

/-- `pb.QueryResult`, of entities `α` and compiled cursors `γ`. -/
structure QueryResult (α γ : Type) where
  cursor : Option Handle := none
  result : List α := []
  skippedResults : Option Int32 := none
  moreResults : Option Bool := none
  compiledCursor : Option γ := none

/-- `pb.NextRequest`. -/
structure NextRequest where
  cursor : Handle
  count : Option Int32
  offset : Option Int32
  compile : Bool

/-- The errors that a client makes of answers it does not expect. -/
def internalError (text : GoString) : Error :=
  .new (("datastore: internal error: " : GoString) ++ text)

namespace QueryResult

variable {α γ : Type}

/-- `GetSkippedResults`. -/
def getSkippedResults (res : QueryResult α γ) : Int32 := res.skippedResults.getD 0

/-- `GetMoreResults`. -/
def getMoreResults (res : QueryResult α γ) : Bool := res.moreResults.getD false

/-- The request of `callNext`, or the error it returns before it makes the call. -/
def callNext (res : QueryResult α γ) (offset limit : Int32) : Except Error NextRequest :=
  match res.cursor with
  | none => .error (internalError "server did not return a cursor")
  | some cursor => .ok
    { cursor := cursor
      count := if 0 ≤ limit then some limit else none
      offset := if offset ≠ 0 then some offset else none
      compile := res.compiledCursor.isSome }

end QueryResult

/-- The service's answers to one query: an error, or a result and the answers to
the `Next` calls that may follow. -/
inductive Answers (α γ : Type) : Type
  | fail (err : Error)
  | result (res : QueryResult α γ) (next : NextRequest → Answers α γ)

/-- A query with the fields of `Query` that bound its results. `NewQuery` sets the
limit to -1, which is no limit. -/
structure BoundedQuery (γ : Type) extends Query where
  limit : Int32 := -1
  offset : Int32 := 0
  start : Option γ := none
  /-- The field `end`. -/
  stop : Option γ := none

/-- The query with nothing set that bounds its results. -/
def Query.unbounded {γ : Type} (q : Query) : BoundedQuery γ := { toQuery := q }

/-- `pb.Query`, with the part that does not bound the results as it is. -/
structure QueryProto (γ : Type) where
  app : GoString
  query : Query
  limit : Option Int32
  offset : Option Int32
  compiledCursor : Option γ
  endCompiledCursor : Option γ
  compile : Bool

/-- An entity as it comes over the wire: a key that may be missing, and properties. -/
structure RawEntity where
  key : Option Reference
  props : List Property

/-- `math.MaxInt32`. -/
def maxInt32 : Int32 := 2147483647

namespace BoundedQuery

variable {γ : Type} (q : BoundedQuery γ)

/-- The part of `Query.toProto` that bounds the results, after its checks. -/
def request (appID : GoString) : Except Error (QueryProto γ) :=
  match q.toQuery.toProto with
  | some err => .error err
  | none => .ok
    { app := appID
      query := q.toQuery
      limit := if 0 ≤ q.limit then some q.limit else none
      offset := if q.offset ≠ 0 then some q.offset else none
      compiledCursor := q.start
      endCompiledCursor := q.stop
      compile := true }

end BoundedQuery

/-! ### `Query.Count` -/

section Count

variable {α γ : Type}

/-- The loop of `Query.Count`, from an answer of the service on. -/
def countLoop (offset : Int32) : Answers α γ → Int32 → Except Error Int32
  | .fail err, _ => .error err
  | .result res next, n =>
    if res.result.length ≠ 0 then
      .error (internalError "Count request returned too much data")
    else
      let n := n + res.getSkippedResults
      if !res.getMoreResults then .ok n
      else
        match res.callNext (offset - n) 0 with
        | .error err => .error err
        | .ok req => countLoop offset (next req) n

/-- The offset that a count skips to: past all results that are to be counted, as far
as an `int32` goes. -/
def BoundedQuery.countOffset (q : BoundedQuery γ) : Int32 :=
  if q.limit < 0 then maxInt32
  else if q.offset + q.limit < 0 then maxInt32 -- the sum has overflowed
  else q.offset + q.limit

/-- The copy of the query that `Query.Count` runs. -/
def BoundedQuery.forCount (q : BoundedQuery γ) : BoundedQuery γ :=
  { q with toQuery := q.toQuery.forCount, limit := 0, offset := q.countOffset }

/-- `Query.Count`, over the calls it makes. -/
def BoundedQuery.count (server : QueryProto γ → Answers α γ) (appID : GoString)
    (q : BoundedQuery γ) : Except Error ℤ :=
  match q.err with
  | some err => .error err
  | none =>
    match q.forCount.request appID with
    | .error err => .error err
    | .ok req =>
      match countLoop q.forCount.offset (server req) 0 with
      | .error err => .error err
      | .ok n =>
        let n := n - q.offset
        .ok (if n < 0 then 0 else n.toInt)

end Count

/-! ### `Query.Run` and `Iterator.Next` -/

/-- How a call of `Iterator.next` ends without an entity: it returns an error, or it is a
run-time panic. -/
inductive NextError : Type
  | err (err : Error)
  | nilDereference
  | indexOutOfRange

/-- `datastore.Iterator`: the most recent result with the answers that may follow it,
how many of its entities have been returned, the limit that is left, the query, and
the cursor at the end of the result before. -/
structure RpcIterator (γ : Type) where
  err : Option Error := none
  res : QueryResult RawEntity γ := {}
  server : NextRequest → Answers RawEntity γ := fun _ => .fail .done
  i : ℕ := 0
  limit : Int32
  q : BoundedQuery γ
  prevCC : Option γ

namespace RpcIterator

variable {γ : Type}

/-- The loop of `Query.Run`, from an answer of the service on: it goes on until the
offset has been skipped. Only the answers to `Next` calls are checked for a negative
number of skipped results. -/
def skip (t : RpcIterator γ) (first : Bool) : Answers RawEntity γ → Int32 → Option γ → RpcIterator γ
  -- the failed call has reset the result
  | .fail err, _, prevCC => { t with err := some err, res := {}, prevCC := prevCC }
  | .result res next, offset, prevCC =>
    let t := { t with res := res, server := next, prevCC := prevCC }
    if !first && res.getSkippedResults < 0 then
      { t with err := some (internalError "negative number of skipped_results") }
    else
      let offset := offset - res.getSkippedResults
      if 0 < offset && res.getMoreResults then
        match res.callNext offset t.limit with
        | .error err => { t with err := some err, prevCC := res.compiledCursor }
        | .ok req => skip t false (next req) offset res.compiledCursor
      else if offset < 0 then
        { t with err := some (internalError "query offset was overshot") }
      else t

/-- The loop of `Iterator.next`, from the answer to a `Next` call on: it goes on
until a result has an entity. -/
def fill (t : RpcIterator γ) : Answers RawEntity γ → Int32 → Option γ → RpcIterator γ
  | .fail err, limit, prevCC =>
    { t with err := some err, res := {}, limit := limit, prevCC := prevCC }
  | .result res next, limit, prevCC =>
    let t := { t with res := res, server := next, limit := limit, prevCC := prevCC }
    if res.getSkippedResults ≠ 0 then
      { t with err := some (internalError "iterator has skipped results") }
    else
      let limit' := if 0 ≤ limit then limit - Int32.ofNat res.result.length else limit
      let t := { t with i := 0, limit := limit' }
      if 0 ≤ limit ∧ limit' < 0 then
        { t with err := some (internalError "query returned more results than the limit") }
      else if res.result.length ≠ 0 then t
      else if !res.getMoreResults then { t with err := some .done }
      else
        match res.callNext 0 limit' with
        | .error err => { t with err := some err, prevCC := res.compiledCursor }
        | .ok req => fill t (next req) limit' res.compiledCursor

/-- The iterator with an entity left in its result, or with an error set. -/
def advance (t : RpcIterator γ) : RpcIterator γ :=
  if t.i = t.res.result.length then
    if !t.res.getMoreResults then { t with err := some .done }
    else
      match t.res.callNext 0 t.limit with
      | .error err => { t with err := some err, prevCC := t.res.compiledCursor }
      | .ok req => fill t (t.server req) t.limit t.res.compiledCursor
  else t

/-- The key of an entity that came over the wire. These errors are not kept by the
iterator. -/
def readKey (e : RawEntity) : Except NextError Key :=
  match e.key with
  | none => .error (.err (internalError "server did not return a key"))
  | some ref =>
    match protoToKey ref with
    | .error _ => .error (.err (internalError "server returned an invalid key"))
    | .ok .nil => .error .nilDereference -- a path without elements
    | .ok k =>
      if k.incomplete then
        .error (.err (internalError "server returned an invalid key"))
      else .ok k

/-- `Iterator.next`. -/
def next (t : RpcIterator γ) : Except NextError EntityProto × RpcIterator γ :=
  match t.err with
  | some err => (.error (.err err), t)
  | none =>
    let t := t.advance
    match t.err with
    | some err => (.error (.err err), t)
    | none =>
      match t.res.result[t.i]? with
      -- not reached: `advance` leaves an entity or sets an error
      | none => (.error .indexOutOfRange, t)
      | some e =>
        let t := { t with i := t.i + 1 }
        match readKey e with
        | .error err => (.error err, t)
        | .ok k => (.ok (k, e.props), t)

end RpcIterator

/-- `Query.Run`, over the calls it makes. -/
def BoundedQuery.run {γ : Type} (server : QueryProto γ → Answers RawEntity γ) (appID : GoString)
    (q : BoundedQuery γ) : RpcIterator γ :=
  let t : RpcIterator γ := { limit := q.limit, q := q, prevCC := q.start }
  match q.err with
  | some err => { t with err := some err }
  | none =>
    match q.request appID with
    | .error err => { t with err := some err }
    | .ok req => t.skip true (server req) q.offset q.start

/-- The query that `Iterator.Cursor` runs again, without results, up to where the
iterator is. -/
def RpcIterator.reached {γ : Type} (t : RpcIterator γ) : BoundedQuery γ :=
  { t.q with
    toQuery := t.q.toQuery.forCount
    start := t.prevCC
    offset := t.res.getSkippedResults + Int32.ofNat t.i
    limit := 0 }

/-- `Iterator.Cursor`. The cursor that it gives may be nil. -/
def RpcIterator.cursor {γ : Type} (zeroCC : γ) (server : QueryProto γ → Answers RawEntity γ)
    (appID : GoString) (t : RpcIterator γ) : Except NextError (Option γ) :=
  match t.err.filter (· ≠ .done) with
  | some err => .error (.err err)
  | none =>
    -- at either end of the batch, the compiled cursor at that end
    if t.i = 0 ∧ t.res.getSkippedResults = 0 then
      match t.prevCC with
      | none => .ok (some zeroCC) -- the start, where no cursor would be no constraint
      | some cc => .ok (some cc)
    else if t.i = t.res.result.length then .ok t.res.compiledCursor
    else
      match (t.reached.run server appID).next with
      | (.error (.err err), t') =>
        if err = .done then .ok t'.res.compiledCursor else .error (.err err)
      | (.error panic, _) => .error panic
      | (.ok _, _) => .error (.err (internalError "zero-limit query did not have zero results"))

end PluginsDatastore
