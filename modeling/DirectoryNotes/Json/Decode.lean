import DirectoryNotes.Json.Reader

/-!
# Taking values out of JSON

A decoder answers `none` when a value has not the form it asks for. A structure may be written as an
object, where unknown fields do not matter and a known one must not be repeated, or as a list of its
fields in their order, where fields may be missing at the end. A choice among names is written as the
name, or as an object with the name alone and nothing under it.
-/

namespace DirectoryNotes.Json

/-! ## Plain values -/

/-- A text. -/
def asText? : Json → Option String
  | .text s => some s
  | _ => none

/-- A truth value. -/
def asBool? : Json → Option Bool
  | .bool b => some b
  | _ => none

/-- An integer from 0 up to `limit`, the limit left out. -/
def asNatBelow? (limit : Nat) : Json → Option Nat
  | .integer n => if 0 ≤ n ∧ n < limit then some n.toNat else none
  | _ => none

/-- A list whose items the decoder takes. -/
def asList? (item? : Json → Option α) : Json → Option (List α)
  | .list items => items.mapM item?
  | _ => none

/-- A list of texts. -/
def asTexts? (j : Json) : Option (List String) := j.asList? asText?

/-- One of several names. -/
def asName? : Json → Option String
  | .text s => some s
  | .object [(name, .null)] => some name
  | _ => none

/-! ## Structures -/

/-- The fields of a structure by name, each with its value if it is there. -/
abbrev Fields := List (String × Option Json)

/-- The values of the fields of a structure that has fields of these names. -/
def asFields? (names : List String) : Json → Option Fields
  | .object fields =>
    let known := fields.filter fun field => names.contains field.1
    if (known.map (·.1)).Nodup then some (names.map fun name => (name, known.lookup name)) else none
  | .list items =>
    if items.length ≤ names.length then
      some (names.zip (items.map some ++ List.replicate names.length none))
    else none
  | _ => none

/-- A field that must be there. -/
def Fields.need? (fields : Fields) (name : String) (decode? : Json → Option α) : Option α := do
  decode? (← (← fields.lookup name))

/-- A field that has a default. -/
def Fields.orElse? (fields : Fields) (name : String) (default : α) (decode? : Json → Option α) :
    Option α :=
  match fields.lookup name with
  | some (some j) => decode? j
  | _ => some default

/-- The field of an object; of a repeated one the last counts. -/
def last? (name : String) : Json → Option Json
  | .object fields => fields.reverse.lookup name
  | _ => none

end DirectoryNotes.Json
