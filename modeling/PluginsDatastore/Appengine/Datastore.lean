import PluginsDatastore.Appengine.Iterator
import PluginsDatastore.Calls.Program

/-!
# The functions of `appengine/datastore`

What the package does on the client's side, as programs that call the datastore
service: the checks it makes before a call, the call, and what it makes of the
reply. A function that fails a check makes no call.

The service itself is described in `Appengine/Service.lean`.
-/

namespace PluginsDatastore

open Calls

/-- The calls of a request to the datastore service. A `RunQuery` call stands for
the whole of a query, with the `Next` calls that fetch its batches, and `count`
for the same call made to skip all results and be told their number. -/
inductive Call : Type
  | count (q : Query)
  | runQuery (q : Query)
  | put (key : Key) (props : List Property)
  | delete (keys : List Key)

/-- The reply to a call. -/
abbrev Call.Reply : Call → Type
  | count _ => Except Error ℕ
  | runQuery _ => Replies EntityProto
  | put _ _ => Except Error Key
  | delete _ => Option Error

/-- The datastore service as its clients see it. -/
abbrev datastore : Interface where
  Call := Call
  Reply := Call.Reply

/-- `Query.Count`. -/
def Query.count (q : Query) : Prog datastore (ℕ × Option Error) :=
  match q.err with
  | some err => pure (0, some err)
  | none =>
    match q.forCount.toProto with
    | some err => pure (0, some err)
    | none => do
      match ← Prog.perform (I := datastore) (.count q.forCount) with
      | .error err => return (0, some err)
      | .ok n => return (n, none)

/-- `Query.Run`. -/
def Query.run (q : Query) : Prog datastore (Iterator EntityProto) :=
  match q.err with
  | some err => pure { err := some err }
  | none =>
    match q.toProto with
    | some err => pure { err := some err }
    | none => do
      let res ← Prog.perform (I := datastore) (.runQuery q)
      return Iterator.receive res

/-- `Iterator.Next`, of an iterator over a query that is not keys-only: the
entity is loaded into `dst`, which is returned with the error. -/
def Iterator.nextInto {β : Type} (load : List Property → β × Option Error) (dst : β)
    (t : Iterator EntityProto) : (β × Option Error) × Iterator EntityProto :=
  match t.next with
  | (.error err, t) => ((dst, some err), t)
  | (.ok (_, e), t) => (load e, t)

/-- `Query.GetAll`. The destination may be nil when the query is keys-only. The
keys gathered so far and the destination come with the error. -/
def Query.getAll {β : Type} (load : List Property → β × Option Error) (q : Query)
    (dst : Option (Slice β)) : Prog datastore (List Key × Slice β × Option Error) :=
  if !q.keysOnly && dst.isNone then
    pure ([], .nil, some (.new "datastore: invalid entity type"))
  else do
    let t ← q.run
    return t.getAllLoop q.keysOnly load (t.results.length + 1) [] (dst.getD .nil) none

/-- `Put`, of an entity that has been saved as properties. -/
def put (key : Key) (src : List Property) : Prog datastore (Key × Option Error) :=
  match multiValid [key] with
  | some me => pure (.nil, me.head?.join)
  | none => do
    match ← Prog.perform (I := datastore) (.put key src) with
    | .error err => return (.nil, some err)
    | .ok k => return (k, none)

/-- `DeleteMulti`. -/
def deleteMulti (keys : List Key) : Prog datastore (Option Error) :=
  if keys.isEmpty then pure none
  else
    match multiValid keys with
    | some me => pure (some (.new (multiErrorText me)))
    | none => Prog.perform (I := datastore) (.delete keys)

/-! ### The functions on arguments that pass the checks -/

variable {q : Query} {key : Key} {keys : List Key} {src : List Property} {β : Type}
  {load : List Property → β × Option Error}

/-- What `Count` makes of the reply. -/
def countReply : Except Error ℕ → ℕ × Option Error
  | .error err => (0, some err)
  | .ok n => (n, none)

/-- What `Put` makes of the reply. -/
def putReply : Except Error Key → Key × Option Error
  | .error err => (.nil, some err)
  | .ok k => (k, none)

theorem Query.Valid.count_eq (h : q.Valid) :
    q.count = .call (I := datastore) (.count q.forCount) fun r => .ret (countReply r) := by
  -- the query and the keys-only copy that is counted pass their checks
  simp only [Query.count, h.err, h.forCount.toProto]
  refine Prog.call_congr fun r => ?_
  cases r <;> rfl

theorem Query.Valid.run_eq (h : q.Valid) :
    q.run = .call (I := datastore) (.runQuery q) fun res => .ret (Iterator.receive res) := by
  simp only [Query.run, h.err, h.toProto]
  rfl

theorem multiValid_of_valid (h : ∀ k ∈ keys, k.valid = true) : multiValid keys = none := by
  rw [multiValid, if_pos (List.all_eq_true.mpr h)]

/-- **`GetAll` of a keys-only query** makes one query and gathers the keys of all
results up to the end, whatever the batches were. -/
theorem Query.Valid.getAll_keysOnly (h : q.Valid) (hkeys : q.keysOnly = true) :
    q.getAll load none = .call (I := datastore) (.runQuery q) fun res =>
      .ret (res.results.map Prod.fst, .nil, Iterator.endError res.final) := by
  rw [Query.getAll, hkeys, h.run_eq]
  -- the loop is about the iterator only, and makes no call
  refine Prog.call_congr fun res => ?_
  show Prog.ret (Iterator.getAllLoop true load _ (Iterator.receive res) [] .nil none) = _
  rw [Iterator.getAllLoop_keysOnly (Nat.lt_succ_self _), Iterator.results_receive,
    Iterator.final_receive, List.nil_append]

/-- **`GetAll` of entities that load** appends the loaded entities to its
destination, up to the end of the results, whatever the batches were. -/
theorem Query.Valid.getAll_load (h : q.Valid) (hkeys : q.keysOnly = false) (dst : Slice β) :
    q.getAll load (some dst) = .call (I := datastore) (.runQuery q) fun res =>
      .ret ((Iterator.receive res).getAllLoop false load (res.results.length + 1) [] dst none) := by
  rw [Query.getAll, hkeys, h.run_eq]
  refine Prog.call_congr fun res => ?_
  show Prog.ret (Iterator.getAllLoop false load _ (Iterator.receive res) [] dst none) = _
  rw [Iterator.results_receive]

theorem put_of_valid (h : key.valid = true) :
    put key src = .call (I := datastore) (.put key src) fun r => .ret (putReply r) := by
  rw [put, multiValid_of_valid (by simpa using h)]
  refine Prog.call_congr fun r => ?_
  cases r <;> rfl

/-- `Put` under an invalid key makes no call. -/
theorem put_of_not_valid (h : key.valid = false) :
    put key src = .ret (.nil, some .invalidKey) := by
  simp [put, multiValid, h]

theorem deleteMulti_of_valid (hne : keys ≠ []) (h : ∀ k ∈ keys, k.valid = true) :
    deleteMulti keys = Prog.perform (I := datastore) (.delete keys) := by
  rw [deleteMulti, if_neg (by simpa using hne), multiValid_of_valid h]

end PluginsDatastore
