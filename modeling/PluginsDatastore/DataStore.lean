import PluginsDatastore.Appengine.Service
import PluginsDatastore.Go.Http
import PluginsDatastore.Go.Json

/-!
# The handlers of `dataStore.go`

Presets are shared under a share id: `storePreset` stores one, `removePreset`
removes an owner's presets, `loadPreset` lists the presets of a share id and
`getShareIds` lists the share ids. The owner id that comes with a request is all
that tells owners apart: `checkIsNewOrOwner` lets a preset be stored when there
is none of its name yet or one of its owner.

Each handler is a program that calls the datastore and returns what it wrote to
its response. `Context` is what `appengine.NewContext` makes of the request.
-/

namespace PluginsDatastore

open Calls

/-- A preset as it is stored. -/
structure SharedPreset where
  ownerId : GoString
  shareId : GoString
  author : GoString
  presetName : GoString
  preset : GoString
  deriving DecidableEq

namespace SharedPreset

/-- The zero value. -/
def zero : SharedPreset := ⟨"", "", "", "", ""⟩

/-- The properties a preset is saved as. The preset itself is not indexed. -/
def save (p : SharedPreset) : List Property :=
  [⟨"OwnerId", p.ownerId, false⟩, ⟨"ShareId", p.shareId, false⟩, ⟨"Author", p.author, false⟩,
    ⟨"PresetName", p.presetName, false⟩, ⟨"Preset", p.preset, true⟩]

/-- The preset with the field of a property's name set, if there is one. -/
def setField (p : SharedPreset) (name value : GoString) : Option SharedPreset :=
  if name = "OwnerId" then some { p with ownerId := value }
  else if name = "ShareId" then some { p with shareId := value }
  else if name = "Author" then some { p with author := value }
  else if name = "PresetName" then some { p with presetName := value }
  else if name = "Preset" then some { p with preset := value }
  else none

/-- `ErrFieldMismatch`, for a property that the struct has no field for. -/
def errFieldMismatch (name : GoString) : Error :=
  .new (("datastore: cannot load field " : GoString) ++ Query.quote name
    ++ (" into a \"main.SharedPreset\": no such struct field" : GoString))

/-- One round of the loop of `structPLS.Load`. A property without a field is
reported and does not stop the loop. -/
def loadProperty (acc : SharedPreset × Option Error) (prop : Property) :
    SharedPreset × Option Error :=
  match acc.1.setField prop.name prop.value with
  | some p => (p, acc.2)
  | none => (acc.1, some (errFieldMismatch prop.name))

/-- `loadEntity`, into a zero value. -/
def load (props : List Property) : SharedPreset × Option Error :=
  props.foldl loadProperty (zero, none)

/-- The preset in JSON. -/
def encode (p : SharedPreset) : GoString :=
  encodeStruct [("OwnerId", p.ownerId), ("ShareId", p.shareId), ("Author", p.author),
    ("PresetName", p.presetName), ("Preset", p.preset)]

end SharedPreset

/-- The values that handlers pass to `writeJson`. -/
inductive Value : Type
  | nil
  | presets (s : Slice SharedPreset)
  | strings (s : Slice GoString)
  deriving DecidableEq

/-- What `json.NewEncoder(w).Encode(value)` writes: the value and a newline. -/
def Value.encode (value : Value) : GoString :=
  (match value with
    | nil => "null"
    | presets s => encodeSlice SharedPreset.encode s
    | strings s => encodeSlice encodeString s) ++ ("\n" : GoString)

/-- `writeJson`. -/
def writeJson (w : ResponseWriter) (r : Request) (value : Value) : ResponseWriter :=
  let w := w.setHeader "Access-Control-Allow-Origin" "https://57439.afasinsite.nl"
  let cb := r.formValue "callback"
  -- `&value` is the address of the parameter, which is never nil
  let address : Option Value := some value
  if address = none then
    if cb ≠ "" then w.fprintf (cb ++ ("('')" : GoString)) else w
  else if cb ≠ "" then
    let w := w.fprintf (cb ++ ("(" : GoString))
    let w := w.write value.encode
    w.fprintf ");"
  else w.write value.encode

@[simp] theorem status_writeJson (w : ResponseWriter) (r : Request) (value : Value) :
    (writeJson w r value).status = w.status := by
  -- with a callback and without one, only the body is written
  unfold writeJson
  by_cases hcb : r.formValue "callback" = ""
  · simp [hcb]
  · simp [hcb]

/-- Whatever the value is, nil included, the response has its JSON in it. -/
theorem body_writeJson (w : ResponseWriter) (r : Request) (value : Value) :
    (writeJson w r value).body = w.body ++
      if r.formValue "callback" = "" then value.encode
      else doPrintf (r.formValue "callback" ++ ("(" : GoString)) ++ value.encode
        ++ (");" : GoString) := by
  have hclose : doPrintf ");" = ");" := by decide
  unfold writeJson
  by_cases hcb : r.formValue "callback" = ""
  · simp [hcb, ResponseWriter.write, ResponseWriter.setHeader]
  · simp [hcb, ResponseWriter.write, ResponseWriter.fprintf, ResponseWriter.setHeader, hclose]

/-- `sharedPresetsKey`. -/
def sharedPresetsKey (c : Context) (shareId : GoString) : Key :=
  newKey c "SharedPresets" shareId 0 .nil

/-- `checkIsNewOrOwner`. -/
def checkIsNewOrOwner (c : Context) (presetName shareId ownerId : GoString) :
    Prog datastore Bool := do
  let q := ((newQuery "Preset").setKeysOnly).withAncestor (sharedPresetsKey c shareId)
  let (count, err) ← (q.addFilter "PresetName=" presetName).count
  if err = none ∧ count = 0 then
    -- no preset with this name, so it is new
    return true
  let (count, err) ←
    ((q.addFilter "OwnerId=" ownerId).addFilter "PresetName=" presetName).count
  if err = none ∧ count > 0 then
    -- the preset exists and is owned
    return true
  return false

/-- `storePreset`. -/
def storePreset (c : Context) (w : ResponseWriter) (r : Request) : Prog datastore Served := do
  let p : SharedPreset :=
    { ownerId := r.formValue "ownerId"
      shareId := r.formValue "shareId"
      author := r.formValue "author"
      presetName := r.formValue "presetName"
      preset := r.formValue "preset" }
  if ← checkIsNewOrOwner c p.presetName p.shareId p.ownerId then
    let key := newKey c "Preset" p.presetName 0 (sharedPresetsKey c p.shareId)
    match ← put key p.save with
    | (_, some err) => return .ok (httpError w err.text statusInternalServerError)
    | (_, none) => pure ()
  return .ok (writeJson w r .nil)

/-- `removePreset`. -/
def removePreset (c : Context) (w : ResponseWriter) (r : Request) : Prog datastore Served := do
  let ownerId := r.formValue "ownerId"
  let shareId := r.formValue "shareId"
  let presetName := r.formValue "presetName"
  let q := ((newQuery "Preset").setKeysOnly).withAncestor (sharedPresetsKey c shareId)
  let (keys, _, err) ←
    if presetName = "" then
      (q.addFilter "OwnerId=" ownerId).getAll SharedPreset.load none
    else
      ((q.addFilter "OwnerId=" ownerId).addFilter "PresetName=" presetName).getAll
        SharedPreset.load none
  match err with
  | some err => return .ok (httpError w err.text statusInternalServerError)
  | none =>
    match ← deleteMulti keys with
    | some err => return .ok (httpError w err.text statusInternalServerError)
    | none => return .ok (writeJson w r .nil)

/-- `loadPreset`. The count is the capacity of the slice only. -/
def loadPreset (c : Context) (w : ResponseWriter) (r : Request) : Prog datastore Served := do
  let q := (newQuery "Preset").withAncestor (sharedPresetsKey c (r.formValue "shareId"))
  match ← q.count with
  | (_, some err) => return .ok (httpError w err.text statusInternalServerError)
  | (_, none) =>
    let presets : Slice SharedPreset := .of []
    match ← q.getAll SharedPreset.load (some presets) with
    | (_, _, some err) => return .ok (httpError w err.text statusInternalServerError)
    | (_, presets, none) => return .ok (writeJson w r (.presets presets))

/-- The loop of `getShareIds`. Only `Done` ends it: a result that does not load
and an iteration that fails take an element as well. -/
def shareIdsLoop (t : Iterator EntityProto) (shareIds : List GoString) (i : ℕ) :
    Except RuntimeError (List GoString) :=
  match t.nextInto SharedPreset.load .zero with
  | ((preset, err), t) =>
    if err = some .done then .ok shareIds
    else if i < shareIds.length then
      shareIdsLoop t (shareIds.set i preset.shareId) (i + 1)
    else .error .indexOutOfRange
termination_by shareIds.length - i
decreasing_by
  rw [List.length_set]
  omega

/-- `getShareIds`. -/
def getShareIds (w : ResponseWriter) (r : Request) : Prog datastore Served := do
  let q := ((newQuery "Preset").project ["ShareId"]).setDistinct
  match ← q.count with
  | (_, some err) => return .ok (httpError w err.text statusInternalServerError)
  | (count, none) =>
    let shareIds : List GoString := List.replicate count ""
    let t ← q.run
    match shareIdsLoop t shareIds 0 with
    | .error err => return .error err
    | .ok shareIds => return .ok (writeJson w r (.strings (.of shareIds)))

/-! ### Requests and their handling -/

/-- The handlers that `init` registers. -/
inductive Endpoint : Type
  | load
  | store
  | remove
  | getShareIds
  deriving DecidableEq

/-- The handler of an endpoint. -/
def Endpoint.handler (c : Context) (w : ResponseWriter) (r : Request) :
    Endpoint → Prog datastore Served
  | load => loadPreset c w r
  | store => storePreset c w r
  | remove => removePreset c w r
  | getShareIds => PluginsDatastore.getShareIds w r

/-- A request with the endpoint it is for. -/
structure Inquiry where
  endpoint : Endpoint
  request : Request
  deriving DecidableEq

/-- The program that serves a request, on a response writer nothing has been
written to. -/
def Inquiry.program (c : Context) (x : Inquiry) : Prog datastore Served :=
  x.endpoint.handler c {} x.request

end PluginsDatastore
