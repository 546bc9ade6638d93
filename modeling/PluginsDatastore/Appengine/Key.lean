import Mathlib.Data.Int.Notation
import PluginsDatastore.Go.Text

/-!
# Datastore keys

`appengine/datastore/key.go`. A key names an entity by a kind and either a
string id or an integer id, below a parent key. A key with neither id is
incomplete: it names no entity, and storing an entity under it makes the
datastore choose an integer id. A `*Key` may be nil, and the parent of a root
key is.
-/

namespace PluginsDatastore

/-- What `NewKey` asks the `appengine.Context` of a request for. An application
id is never empty. -/
structure Context where
  fullyQualifiedAppID : GoString
  /-- The namespace that the `GetNamespace` call answers. -/
  nameSpace : GoString
  appID_ne : fullyQualifiedAppID ≠ ""

/-- A `*datastore.Key`. -/
inductive Key : Type
  | nil
  | mk (kind stringID : GoString) (intID : ℤ) (parent : Key) (appID nameSpace : GoString)
  deriving DecidableEq

namespace Key

/-- The kind of a key. -/
def kind : Key → GoString
  | nil => ""
  | mk kind _ _ _ _ _ => kind

/-- The application id of a key. -/
def appID : Key → GoString
  | nil => ""
  | mk _ _ _ _ appID _ => appID

/-- The namespace of a key. -/
def nameSpace : Key → GoString
  | nil => ""
  | mk _ _ _ _ _ nameSpace => nameSpace

/-- `Key.Incomplete`: neither id is set. -/
def incomplete : Key → Bool
  | nil => false
  | mk _ stringID intID _ _ _ => stringID = "" && intID = 0

/-- The test of one link of the chain of parents, in `Key.valid`. -/
def validLink (kind stringID : GoString) (intID : ℤ) (parent : Key)
    (appID nameSpace : GoString) : Bool :=
  !(kind = "" || appID = "") && !(stringID ≠ "" && intID ≠ 0) &&
    (parent = nil ||
      !parent.incomplete && !(parent.appID ≠ appID || parent.nameSpace ≠ nameSpace))

/-- The loop of `Key.valid`. -/
def validChain : Key → Bool
  | nil => true
  | mk kind stringID intID parent appID nameSpace =>
    validLink kind stringID intID parent appID nameSpace && parent.validChain

/-- `Key.valid`. -/
def valid (k : Key) : Bool := k ≠ nil && k.validChain

/-- The key with its integer id set, as the datastore completes a key. -/
def withID : Key → ℤ → Key
  | nil, _ => nil
  | mk kind stringID _ parent appID nameSpace, intID =>
    mk kind stringID intID parent appID nameSpace

/-- `Key.root`: the furthest ancestor of a key, which may be itself. -/
def root : Key → Key
  | nil => nil
  | mk kind stringID intID parent appID nameSpace =>
    if parent = nil then mk kind stringID intID parent appID nameSpace else parent.root

/-- The entity named by `k` lies under `ancestor`: that key is `k` or one of its
parents. -/
def under : Key → Key → Bool
  | nil, _ => false
  | mk kind stringID intID parent appID nameSpace, ancestor =>
    mk kind stringID intID parent appID nameSpace = ancestor || parent.under ancestor

end Key

/-- `NewKey`. A key takes the namespace of its parent. -/
def newKey (c : Context) (kind stringID : GoString) (intID : ℤ) (parent : Key) : Key :=
  let nameSpace := if parent ≠ .nil then parent.nameSpace else c.nameSpace
  .mk kind stringID intID parent c.fullyQualifiedAppID nameSpace

end PluginsDatastore
