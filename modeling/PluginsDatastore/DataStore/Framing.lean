import Mathlib.Data.List.DropRight
import PluginsDatastore.DataStore.Runs
import PluginsDatastore.Go.Verbatim

/-!
# The frame of a response

A response is JSON, or a call of the callback that the request names with the JSON as
its argument. `frame` is the body that the client then expects, and `writeJson_framed_iff`
says when it gets it. Two things are in the way. The callback is written as a format of
`Fprintf`, so that a `%` in it is not copied. And the case of no value is never entered,
since the test for it is about an address: `null` is written instead.
-/

namespace PluginsDatastore

/-- The body that is expected for a value and a callback, which may be empty. -/
def frame (cb : GoString) (value : Value) : GoString :=
  if value = .nil then
    if cb = "" then "" else cb ++ ("('')" : GoString)
  else if cb = "" then value.encode
  else cb ++ ("(" : GoString) ++ value.encode ++ (");" : GoString)

/-- What a client makes of a body: it takes the call of its own callback off. -/
def unframe (cb body : GoString) : GoString :=
  if cb = "" then body
  else (body.drop (cb ++ ("(" : GoString)).length).rdrop ((");" : String) : GoString).length

/-- **A body that frames a value** for the callback: it is the one expected, and the
client finds the JSON of the value in it. -/
structure Framed (cb : GoString) (value : Value) (body : GoString) : Prop where
  body_eq : body = frame cb value
  unframe_eq : value ≠ .nil → unframe cb body = value.encode

variable {cb : GoString} {value : Value} {r : Request}

/-- The body expected for a value has its JSON in it. -/
theorem unframe_frame (hvalue : value ≠ .nil) : unframe cb (frame cb value) = value.encode := by
  unfold unframe frame
  rw [if_neg hvalue]
  split_ifs
  · rfl
  · rw [List.append_assoc, List.drop_left, List.rdrop_append_length]

theorem framed_iff {body : GoString} : Framed cb value body ↔ body = frame cb value := by
  refine ⟨fun h => h.body_eq, ?_⟩
  rintro rfl
  exact ⟨rfl, unframe_frame⟩

/-- **Without a value**, the body is never the one expected. -/
theorem body_writeJson_nil_ne :
    (writeJson {} r .nil).body ≠ frame (r.formValue "callback") .nil := by
  rw [body_writeJson, frame, if_pos rfl]
  split_ifs
  · -- `null` instead of nothing
    decide
  · -- the last byte is a semicolon and not a bracket
    intro heq
    have hlast := congrArg List.getLast? heq
    have hsemicolon : ((");" : String) : GoString).getLast? = some ';'.toUInt8 := by decide
    have hbracket : (("('')" : String) : GoString).getLast? = some ')'.toUInt8 := by decide
    rw [← List.append_assoc, List.getLast?_append, hsemicolon, Option.some_or,
      List.getLast?_append, hbracket, Option.some_or] at hlast
    exact absurd hlast (by decide)

/-- **With a value**, the body is the one expected when the callback has no `%` in it. -/
theorem body_writeJson_eq_iff (hvalue : value ≠ .nil) :
    (writeJson {} r value).body = frame (r.formValue "callback") value ↔
      '%'.toUInt8 ∉ r.formValue "callback" := by
  rw [body_writeJson, frame, if_neg hvalue]
  split_ifs with hcb
  · rw [hcb]
    exact ⟨fun _ => by decide, fun _ => rfl⟩
  · -- all but the callback is written as it is
    have hcopied : doPrintf (r.formValue "callback" ++ ("(" : GoString)) =
        r.formValue "callback" ++ ("(" : GoString) ↔ '%'.toUInt8 ∉ r.formValue "callback" := by
      have hparen : '%'.toUInt8 ∉ (("(" : String) : GoString) := by decide
      rw [doPrintf_eq_self_iff, List.mem_append, or_iff_left hparen]
    rw [← hcopied]
    refine ⟨fun h => ?_, fun h => ?_⟩
    · exact List.append_cancel_right (List.append_cancel_right h)
    · rw [h]
      rfl

/-- **When `writeJson` frames a value**: when there is one and the callback has no `%` in
it, and not otherwise. -/
theorem writeJson_framed_iff (r : Request) (value : Value) :
    Framed (r.formValue "callback") value (writeJson {} r value).body ↔
      value ≠ .nil ∧ '%'.toUInt8 ∉ r.formValue "callback" := by
  rw [framed_iff]
  by_cases hvalue : value = .nil
  · rw [hvalue]
    exact ⟨fun h => absurd h body_writeJson_nil_ne, fun h => absurd rfl h.1⟩
  · rw [body_writeJson_eq_iff hvalue]
    exact ⟨fun h => ⟨hvalue, h⟩, fun h => h.2⟩

namespace Sample

/-- Ann's request with a callback that has a `%` in it. -/
def percent : Request := ann.withValue "callback" "100%"

end Sample

/-- **Two responses that are not framed.** A stored preset is answered by `null` where
nothing is expected, and to a callback with a `%` in it `Fprintf` adds a complaint. -/
theorem writeJson_not_framed :
    (writeJson {} Sample.ann .nil).body = "null\n" ∧
    ¬ Framed (Sample.ann.formValue "callback") .nil (writeJson {} Sample.ann .nil).body ∧
    (writeJson {} Sample.percent (.strings (.of ["team"]))).body =
      "100%!((MISSING)[\"team\"]\n);" ∧
    ¬ Framed (Sample.percent.formValue "callback") (.strings (.of ["team"]))
      (writeJson {} Sample.percent (.strings (.of ["team"]))).body := by
  refine ⟨by decide +kernel, ?_, by decide +kernel, ?_⟩
  · exact fun h => body_writeJson_nil_ne h.body_eq
  · intro h
    have hnone := (body_writeJson_eq_iff (by simp)).mp h.body_eq
    exact hnone (by decide +kernel)

end PluginsDatastore
