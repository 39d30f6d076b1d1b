import DirectoryNotes.Text.Basic
import DirectoryNotes.Text.Case
import DirectoryNotes.Text.Class

/-!
# Text operations on strings

What the modules about files, records and commands use of `DirectoryNotes.Text`: each operation is
the one on characters, between two conversions.
-/

namespace DirectoryNotes.Text

/-- Cuts white space off both ends. -/
def trim (s : String) : String :=
  .ofList (trimBy isBlank s.toList)

/-- Whether a text holds nothing but white space. -/
def isBlankText (s : String) : Bool :=
  s.toList.all isBlank

/-- The parts of a text between the occurrences of a separator. -/
def split (sep : Char) (s : String) : List String :=
  (pieces sep s.toList).map String.ofList

/-- The lines of a text, without their ends. -/
def linesOf (s : String) : List String :=
  (lines s.toList).map String.ofList

/-- The first run of characters that are not blank. -/
def firstWord? (s : String) : Option String :=
  match (s.toList.dropWhile isBlank).takeWhile (!isBlank ·) with
  | [] => none
  | word => some (.ofList word)

/-- Whether `needle` stands somewhere in `s`. -/
def contains (s needle : String) : Bool :=
  occursIn needle.toList s.toList

/-- Whether `s` begins with `start`. -/
def beginsWith (s start : String) : Bool :=
  start.toList.isPrefixOf s.toList

/-- Whether `s` ends with `ending`. -/
def endsWith (s ending : String) : Bool :=
  ending.toList.isSuffixOf s.toList

/-- Removes `ending` from the end as often as it stands there. -/
def trimEndings (s ending : String) : String :=
  .ofList (dropRepeated ending.toList.reverse s.toList.reverse).reverse

/-- The parts put together with `sep` between them. -/
def join (sep : String) (parts : List String) : String :=
  sep.intercalate parts

/-- The first `n` characters. -/
def takeChars (n : Nat) (s : String) : String :=
  .ofList (s.toList.take n)

/-- Keeps the first occurrence of every element. -/
def firstOccurrences [BEq α] (xs : List α) : List α :=
  xs.foldl (fun kept x => if kept.contains x then kept else kept ++ [x]) []

end DirectoryNotes.Text
