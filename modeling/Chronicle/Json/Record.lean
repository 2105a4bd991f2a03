import Chronicle.Json.Basic
/-!
# Record payloads

A record is written as an object with a field per component. It is read from an object, whose other
fields are ignored, or from an array that lists the components in order.

* `Json.components?`: the components of a record, absent ones left out;
* `Json.required`, `Json.optional`: a component that has to be there, and one that may be missing or
  `null`;
* `Json.present`: the fields of a record to be written, absent ones left out.
-/

namespace Chronicle.Json

/-- The components of the record with the field names `names`. An array may be shorter than the
list of names, but not longer. -/
def components? (names : List String) : Json → Option (List (Option Json))
  | .obj fields => some (names.map fun n => lookup? n fields)
  | .arr items =>
    if items.length ≤ names.length then
      some (items.map some ++ List.replicate (names.length - items.length) none)
    else none
  | _ => none

/-- Reads a component that has to be there. -/
def required {α : Type} (read : Json → Option α) : Option Json → Option α
  | some v => read v
  | none => none

/-- Reads a component that may be missing or `null`; the outer option says whether it reads. -/
def optional {α : Type} (read : Json → Option α) : Option Json → Option (Option α)
  | none => some none
  | some .null => some none
  | some v => (read v).map some

/-- The fields that have a value. -/
def present (fields : List (String × Option Json)) : Json :=
  .obj (fields.filterMap fun f => f.2.map fun v => (f.1, v))

end Chronicle.Json
