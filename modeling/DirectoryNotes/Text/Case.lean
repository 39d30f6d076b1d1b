import DirectoryNotes.Text.CaseTable
import DirectoryNotes.Text.Class

/-!
# Letter case

`lower` and `upper` change the case of a whole text by Unicode's rules, where one letter may become
several. Capital sigma is the one letter whose small form depends on its surroundings: it is the
final form at the end of a word, that is, after a letter with case and not before one, passing over
the characters in `isCaseIgnorable`.
-/

namespace DirectoryNotes.Text

/-- The offset at which a run of letters moves a code point, if the run holds it. -/
def CaseShift.offset? (s : CaseShift) (n : Nat) : Option Int :=
  if s.first ≤ n ∧ n ≤ s.last ∧ (n - s.first) % s.step = 0 then some s.offset else none

/-- The other case of a character beyond ASCII. -/
def shiftCase (special : List (Nat × List Nat)) (shifts : List CaseShift) (c : Char) : List Char :=
  match special.lookup c.toNat with
  | some letters => letters.map Char.ofNat
  | none =>
    match shifts.findSome? (·.offset? c.toNat) with
    | some offset => [Char.ofNat (c.toNat + offset).toNat]
    | none => [c]

/-- The small form of a character, apart from the rule for sigma. -/
def lowerChar (c : Char) : List Char :=
  if c.toNat < 0x80 then [c.toLower] else shiftCase lowerSpecial lowerShifts c

/-- The capital form of a character. -/
def upperChar (c : Char) : List Char :=
  if c.toNat < 0x80 then [c.toUpper] else shiftCase upperSpecial upperShifts c

/-- Letters that have a case. -/
def isCased (c : Char) : Bool :=
  if c.toNat < 0x80 then c.isAlpha else inRanges casedRanges c.toNat

/-- Characters that do not end a word: apostrophes, points, accents and the like. -/
def isCaseIgnorable (c : Char) : Bool :=
  if c.toNat < 0x80 then [0x27, 0x2E, 0x3A, 0x5E, 0x60].contains c.toNat
  else inRanges ignorableRanges c.toNat

/-- Whether the first character that is not passed over is a letter with case. -/
def casedAhead (s : List Char) : Bool :=
  ((s.dropWhile isCaseIgnorable).head?.map isCased).getD false

/-- The small form of a text, given the characters before it in reverse. -/
def lowerChars (before : List Char) : List Char → List Char
  | [] => []
  | c :: cs =>
    let small :=
      if c = 'Σ' then [if casedAhead before && !casedAhead cs then 'ς' else 'σ'] else lowerChar c
    small ++ lowerChars (c :: before) cs

/-- A text in small letters. -/
def lower (s : String) : String :=
  .ofList (lowerChars [] s.toList)

/-- A text in capitals. -/
def upper (s : String) : String :=
  .ofList (s.toList.flatMap upperChar)

end DirectoryNotes.Text
