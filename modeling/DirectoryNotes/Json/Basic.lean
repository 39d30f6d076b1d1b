/-!
# JSON values

A value keeps what a reader of JSON can tell: the order of the fields of an object and fields that
are repeated are part of it.

Two kinds of values are read but never written here. A `decimal` is a number that is not written as
a plain integer; it stands for no integer, not even when it has an integer's value. A `broken` value
is a text with half of a surrogate pair, or an object with such a text for a name; it stands for
nothing.
-/

namespace DirectoryNotes

/-- A JSON value. -/
inductive Json where
  | null
  | bool (value : Bool)
  | integer (value : Int)
  | decimal (written : List Char)
  | text (value : String)
  | broken
  | list (items : List Json)
  | object (fields : List (String × Json))

namespace Json

/-- An integer that is not negative. -/
def nat (n : Nat) : Json := .integer n

/-- A list of texts. -/
def texts (values : List String) : Json := .list (values.map .text)

/-! ## Broken parts -/

mutual

/-- Whether nothing in a value is broken. -/
def isWhole : Json → Bool
  | .broken => false
  | .list items => areWhole items
  | .object fields => haveWhole fields
  | _ => true

/-- Whether nothing in the items of a list is broken. -/
def areWhole : List Json → Bool
  | [] => true
  | v :: rest => isWhole v && areWhole rest

/-- Whether nothing in the fields of an object is broken. -/
def haveWhole : List (String × Json) → Bool
  | [] => true
  | (_, v) :: rest => isWhole v && haveWhole rest

end

/-! ## Order of fields -/

/-- Puts a field at its place among fields in the order of their names. -/
def insertField (field : String × Json) : List (String × Json) → List (String × Json)
  | [] => [field]
  | other :: rest =>
    if other.1 ≤ field.1 then other :: insertField field rest else field :: other :: rest

mutual

/-- The value with the fields of every object in the order of their names. -/
def sorted : Json → Json
  | .list items => .list (sortedItems items)
  | .object fields => .object (sortedFields fields)
  | other => other

/-- The items of a list, each with its fields in order. -/
def sortedItems : List Json → List Json
  | [] => []
  | v :: rest => sorted v :: sortedItems rest

/-- The fields of an object in order. -/
def sortedFields : List (String × Json) → List (String × Json)
  | [] => []
  | (name, v) :: rest => insertField (name, sorted v) (sortedFields rest)

end

end Json

end DirectoryNotes
