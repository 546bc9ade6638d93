import PluginsDatastore.Go.Printf

/-!
# `net/http`

A request is its parsed form, and a response writer is what has been written to
it: header fields, a status and a body. A handler can also end in a run-time
panic, in which case nothing it wrote counts as its response.
-/

namespace PluginsDatastore

/-- `http.Request`: the form, as `ParseMultipartForm` leaves it. -/
structure Request where
  form : List (GoString × List GoString)
  deriving DecidableEq

/-- `Request.FormValue`: the first value of a form field, or the empty string. -/
def Request.formValue (r : Request) (key : GoString) : GoString :=
  match r.form.lookup key with
  | some (v :: _) => v
  | _ => ""

/-- The request with a form field set to one value. -/
def Request.withValue (r : Request) (key value : GoString) : Request where
  form := (key, [value]) :: r.form.filter fun f => f.1 ≠ key

namespace Request

variable (r : Request)

@[simp] theorem formValue_withValue_self (key value : GoString) :
    (r.withValue key value).formValue key = value := by
  simp [formValue, withValue]

theorem formValue_withValue_of_ne {key key' : GoString} (h : key' ≠ key) (value : GoString) :
    (r.withValue key value).formValue key' = r.formValue key' := by
  have hne : (key' == key) = false := by simpa using h
  have hfilter : ∀ form : List (GoString × List GoString),
      (form.filter fun f => f.1 ≠ key).lookup key' = form.lookup key' := by
    intro form
    induction form with
    | nil => rfl
    | cons f form ih =>
      by_cases hf : f.1 = key
      · -- the field dropped is not the one looked up
        have hf' : (key' == f.1) = false := by rw [hf]; exact hne
        rw [List.filter_cons_of_neg (by simpa using hf), ih, List.lookup_cons, hf']
      · rw [List.filter_cons_of_pos (by simpa using hf), List.lookup_cons, List.lookup_cons, ih]
  unfold formValue withValue
  rw [List.lookup_cons, hne, hfilter]

end Request

/-- `http.StatusInternalServerError`. -/
def statusInternalServerError : ℕ := 500

/-- `http.ResponseWriter`: what a handler has written to it. -/
structure ResponseWriter where
  header : List (GoString × GoString) := []
  /-- The status passed to `WriteHeader`, if it has been called. -/
  status : Option ℕ := none
  body : GoString := ""
  deriving DecidableEq

namespace ResponseWriter

/-- `w.Header().Set(key, value)`. -/
def setHeader (w : ResponseWriter) (key value : GoString) : ResponseWriter :=
  { w with header := (key, value) :: w.header.filter (fun f => f.1 ≠ key) }

/-- `w.WriteHeader(code)`. Only the first call sets the status. -/
def writeHeader (w : ResponseWriter) (code : ℕ) : ResponseWriter :=
  { w with status := some (w.status.getD code) }

/-- `w.Write(b)`. -/
def write (w : ResponseWriter) (b : GoString) : ResponseWriter :=
  { w with body := w.body ++ b }

/-- `fmt.Fprintf(w, format)`. -/
def fprintf (w : ResponseWriter) (format : GoString) : ResponseWriter :=
  w.write (doPrintf format)

@[simp] theorem status_setHeader (w : ResponseWriter) (key value : GoString) :
    (w.setHeader key value).status = w.status := rfl

@[simp] theorem status_write (w : ResponseWriter) (b : GoString) :
    (w.write b).status = w.status := rfl

@[simp] theorem status_fprintf (w : ResponseWriter) (format : GoString) :
    (w.fprintf format).status = w.status := rfl

end ResponseWriter

/-- `http.Error`: reply with a message and a status. -/
def httpError (w : ResponseWriter) (error : GoString) (code : ℕ) : ResponseWriter :=
  (((w.setHeader "Content-Type" "text/plain; charset=utf-8").setHeader
    "X-Content-Type-Options" "nosniff").writeHeader code).write (error ++ "\n")

/-- A run-time panic of a handler. -/
inductive RuntimeError : Type
  | indexOutOfRange
  deriving DecidableEq

/-- How a handler ends: in a panic, or with what it has written. -/
abbrev Served : Type := Except RuntimeError ResponseWriter

end PluginsDatastore
