import PluginsDatastore.Appengine.Key

/-!
# Datastore errors, entities and queries

The errors of `appengine/datastore`, an entity as the list of properties it is
saved as, and the query builder of `query.go`. The methods of a `Query` return a
derived query and leave the one they are called on as it is, which `clone` sees
to in the source, so they are functions here.
-/

namespace PluginsDatastore

/-- An error value. `Done` and `ErrInvalidKey` are compared by identity, every
other error is told by its text. -/
inductive Error : Type
  | done
  | invalidKey
  | new (text : GoString)
  deriving DecidableEq

/-- `err.Error()`. -/
def Error.text : Error → GoString
  | done => "datastore: query has no more results"
  | invalidKey => "datastore: invalid key"
  | new text => text

/-- `MultiError.Error()`, of a list of errors some of which are nil. -/
def multiErrorText (m : List (Option Error)) : GoString :=
  match m.filterMap id with
  | [] => "(0 errors)"
  | [e] => e.text
  | [e, _] => e.text ++ (" (and 1 other error)" : GoString)
  | e :: es => e.text ++ (" (and " : GoString) ++ (toString es.length : String)
      ++ (" other errors)" : GoString)

/-- `multiValid`: the error of a list of keys some of which are invalid. -/
def multiValid (keys : List Key) : Option (List (Option Error)) :=
  if keys.all Key.valid then none
  else some (keys.map fun k => if k.valid then none else some .invalidKey)

/-! ### Entities -/

/-- A property of a saved entity. All values that are stored here are strings. -/
structure Property where
  name : GoString
  value : GoString
  noIndex : Bool
  deriving DecidableEq

/-- The value by which an entity is found under a property name: properties that
are not indexed are not found by queries. -/
def indexedValue (props : List Property) (name : GoString) : Option GoString :=
  (props.find? fun p => p.name = name && !p.noIndex).map Property.value

/-- A result of a query: a key, and the properties delivered with it. -/
abbrev EntityProto : Type := Key × List Property

/-! ### Queries -/

/-- The operator of a filter. -/
inductive Operator : Type
  | lessThan
  | lessEq
  | equal
  | greaterEq
  | greaterThan
  deriving DecidableEq

/-- The comparison of a stored value with the value of a filter. -/
def Operator.compare : Operator → GoString → GoString → Bool
  | lessThan, a, b => a < b
  | lessEq, a, b => a < b || a = b
  | equal, a, b => a = b
  | greaterEq, a, b => b < a || a = b
  | greaterThan, a, b => b < a

/-- A filter on query results. -/
structure Filter where
  fieldName : GoString
  op : Operator
  value : GoString
  deriving DecidableEq

/-- A datastore query. -/
structure Query where
  kind : GoString
  ancestor : Key := .nil
  filter : List Filter := []
  projection : List GoString := []
  distinct : Bool := false
  keysOnly : Bool := false
  err : Option Error := none
  deriving DecidableEq

/-- `NewQuery`. -/
def newQuery (kind : GoString) : Query where
  kind := kind

namespace Query

/-- `Query.Ancestor`. -/
def withAncestor (q : Query) (ancestor : Key) : Query :=
  if ancestor = .nil then { q with err := some (.new "datastore: nil query ancestor") }
  else { q with ancestor := ancestor }

/-- The operator that a filter string ends in. -/
def parseOperator (op : GoString) : Option Operator :=
  if op = "<=" then some .lessEq
  else if op = ">=" then some .greaterEq
  else if op = "<" then some .lessThan
  else if op = ">" then some .greaterThan
  else if op = "=" then some .equal
  else none

/-- The verb `%q` of `fmt`, for a text of printable ASCII bytes without quotes or
backslashes, such as the filter strings of a program. -/
def quote (s : GoString) : GoString := ("\"" : GoString) ++ s ++ ("\"" : GoString)

/-- `Query.Filter`: the filter string is a field name followed by an operator. -/
def addFilter (q : Query) (filterStr value : GoString) : Query :=
  let filterStr := trimSpace filterStr
  if filterStr.length < 1 then
    { q with err := some (.new (("datastore: invalid filter: " : GoString) ++ filterStr)) }
  else
    let fieldName := trimRight filterStr " ><=!"
    -- the operator is what the field name leaves of the filter string
    let op := trimSpace (filterStr.drop fieldName.length)
    match parseOperator op with
    | none => { q with err := some (.new (("datastore: invalid operator " : GoString) ++ quote op
        ++ (" in filter " : GoString) ++ quote filterStr)) }
    | some op => { q with filter := q.filter ++ [⟨fieldName, op, value⟩] }

/-- `Query.Project`. -/
def project (q : Query) (fieldNames : List GoString) : Query := { q with projection := fieldNames }

/-- `Query.Distinct`. -/
def setDistinct (q : Query) : Query := { q with distinct := true }

/-- `Query.KeysOnly`. -/
def setKeysOnly (q : Query) : Query := { q with keysOnly := true }

/-- The checks of `Query.toProto`. -/
def toProto (q : Query) : Option Error :=
  if q.projection ≠ [] ∧ q.keysOnly then
    some (.new "datastore: query cannot both project and be keys-only")
  else if q.filter.any (fun f => f.fieldName = "") then
    some (.new "datastore: empty query filter field name")
  else none

/-- The copy of a query that `Query.Count` runs: keys-only, unless it is a
projection, since the two are incompatible. -/
def forCount (q : Query) : Query := { q with keysOnly := q.projection.isEmpty }

/-- A query that passes the checks of `Run` and of `Count`. -/
structure Valid (q : Query) : Prop where
  err : q.err = none
  project : ¬ (q.projection ≠ [] ∧ q.keysOnly)
  fieldNames : q.filter.any (fun f => f.fieldName = "") = false

theorem Valid.toProto {q : Query} (h : q.Valid) : q.toProto = none := by
  rw [Query.toProto, if_neg h.project, h.fieldNames]
  rfl

theorem Valid.forCount {q : Query} (h : q.Valid) : q.forCount.Valid where
  err := h.err
  project := fun ⟨hne, hkeys⟩ => hne (List.isEmpty_iff.mp hkeys)
  fieldNames := h.fieldNames

/-! ### Which entities a query is about -/

/-- The entity stored under a key is a result of the query: it is of the query's
kind, lies under its ancestor, and is indexed under every property the query
filters on, with a value that passes the filter, and every property the query
projects on. -/
def isResult (q : Query) (k : Key) (props : List Property) : Bool :=
  (q.kind = "" || k.kind = q.kind) && (q.ancestor = .nil || k.under q.ancestor) &&
    q.filter.all (fun f => (indexedValue props f.fieldName).any (f.op.compare · f.value)) &&
    q.projection.all (fun name => (indexedValue props name).isSome)

/-- What a query delivers of an entity: all properties, the projected ones, or
none with the key. -/
def deliver (q : Query) (k : Key) (props : List Property) : EntityProto :=
  (k, if q.keysOnly then [] else if q.projection = [] then props
    else props.filter (fun p => p.name ∈ q.projection))

/-- What the query yields of the entity stored under a key, if anything. -/
def yield (q : Query) (k : Key) (props : List Property) : Option EntityProto :=
  if q.isResult k props then some (q.deliver k props) else none

end Query

end PluginsDatastore
