import DirectoryNotes.Json.Basic

/-!
# Writing JSON

Two forms of the same value: `Json.compact` has no blanks at all, `Json.pretty` has every item and
every field on a line of its own, indented by two blanks a level. Texts are written the same way in
both: a quote, a backslash and the characters below the blank are escaped, all others stand for
themselves.
-/

namespace DirectoryNotes.Json

/-! ## Texts -/

/-- A hexadecimal digit. -/
def hexDigit (n : Nat) : Char :=
  if n < 10 then Char.ofNat (48 + n) else Char.ofNat (87 + n)

/-- A character as it is written between quotes. -/
def escaped (c : Char) : List Char :=
  if c = '\x22' then ['\\', '\x22']
  else if c = '\\' then ['\\', '\\']
  else if c = '\x08' then ['\\', 'b']
  else if c = '\x0c' then ['\\', 'f']
  else if c = '\n' then ['\\', 'n']
  else if c = '\r' then ['\\', 'r']
  else if c = '\t' then ['\\', 't']
  else if c.toNat < 0x20 then ['\\', 'u', '0', '0', hexDigit (c.toNat / 16), hexDigit (c.toNat % 16)]
  else [c]

/-- A text between quotes. -/
def quoted (s : String) : List Char :=
  '\x22' :: s.toList.flatMap escaped ++ ['\x22']

/-- An integer in decimal digits. -/
def digits (n : Int) : List Char :=
  if n < 0 then '-' :: Nat.toDigits 10 n.natAbs else Nat.toDigits 10 n.natAbs

/-- A value that is neither a list nor an object. -/
def scalar : Json → List Char
  | .bool true => "true".toList
  | .bool false => "false".toList
  | .integer n => digits n
  | .decimal written => written
  | .text s => quoted s
  | _ => "null".toList

/-! ## The compact form -/

mutual

/-- A value without blanks. -/
def compactChars : Json → List Char
  | .list items => '[' :: compactItems items ++ [']']
  | .object fields => '\x7b' :: compactFields fields ++ ['\x7d']
  | other => scalar other

/-- Items with commas between them. -/
def compactItems : List Json → List Char
  | [] => []
  | [v] => compactChars v
  | v :: rest => compactChars v ++ ',' :: compactItems rest

/-- Fields with commas between them. -/
def compactFields : List (String × Json) → List Char
  | [] => []
  | [(name, v)] => quoted name ++ ':' :: compactChars v
  | (name, v) :: rest => quoted name ++ ':' :: compactChars v ++ ',' :: compactFields rest

end

/-- The text of a value without blanks. -/
def compact (v : Json) : String := .ofList v.compactChars

/-! ## The pretty form -/

/-- The start of a line at a level. -/
def newLine (level : Nat) : List Char := '\n' :: List.replicate (2 * level) ' '

mutual

/-- A value on lines of its own; what stands inside is one level further in. -/
def prettyChars (level : Nat) : Json → List Char
  | .list [] => ['[', ']']
  | .list items => '[' :: prettyItems (level + 1) items ++ newLine level ++ [']']
  | .object [] => ['\x7b', '\x7d']
  | .object fields => '\x7b' :: prettyFields (level + 1) fields ++ newLine level ++ ['\x7d']
  | other => scalar other

/-- Items, each on its line. -/
def prettyItems (level : Nat) : List Json → List Char
  | [] => []
  | [v] => newLine level ++ prettyChars level v
  | v :: rest => newLine level ++ prettyChars level v ++ ',' :: prettyItems level rest

/-- Fields, each on its line. -/
def prettyFields (level : Nat) : List (String × Json) → List Char
  | [] => []
  | [(name, v)] => newLine level ++ quoted name ++ ':' :: ' ' :: prettyChars level v
  | (name, v) :: rest =>
    newLine level ++ quoted name ++ ':' :: ' ' :: prettyChars level v ++ ',' ::
      prettyFields level rest

end

/-- The text of a value with every item and field on a line of its own. -/
def pretty (v : Json) : String := .ofList (v.prettyChars 0)

/-! ## Values in writing -/

example : (Json.object [("a", .texts ["x"]), ("b", .list [])]).compact =
    "\x7b\"a\":[\"x\"],\"b\":[]\x7d" := by decide +kernel

example : (Json.object [("a", .nat 1)]).pretty = "\x7b\n  \"a\": 1\n\x7d" := by decide +kernel

end DirectoryNotes.Json
