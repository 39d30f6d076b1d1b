import DirectoryNotes.Text.WordTable

/-!
# Classes of characters

The three classes that patterns and trimming speak of, each as Unicode defines it.

* `isBlank`: white space, twenty-five characters;
* `isWordChar`: letters, marks, decimal digits, connector punctuation and joiners;
* `isDigit`: decimal digits of every script.

ASCII is decided directly; the tables cover only what lies beyond it.
-/

namespace DirectoryNotes.Text

/-- White space, line and paragraph ends included. -/
def isBlank (c : Char) : Bool :=
  let n := c.toNat
  (9 ≤ n && n ≤ 13) || n == 0x20 || n == 0x85 || n == 0xA0 || n == 0x1680
    || (0x2000 ≤ n && n ≤ 0x200A) || n == 0x2028 || n == 0x2029 || n == 0x202F || n == 0x205F
    || n == 0x3000

/-- Whether a code point lies in one of the ranges. -/
def inRanges (ranges : List (Nat × Nat)) (n : Nat) : Bool :=
  ranges.any fun r => r.1 ≤ n && n ≤ r.2

/-- Characters that words are made of. -/
def isWordChar (c : Char) : Bool :=
  if c.toNat < 0x80 then c.isAlphanum || c == '_' else inRanges wordRanges c.toNat

/-- Decimal digits. -/
def isDigit (c : Char) : Bool :=
  if c.toNat < 0x80 then c.isDigit else inRanges digitRanges c.toNat

/-! ## The classes on common characters -/

example : [' ', '\t', '\n', '\r', '\u00a0', '\u3000'].all isBlank := by decide

example : ['\u200b', '\ufeff', 'a'].any isBlank = false := by decide

example : ['a', 'Z', '0', '_'].all isWordChar ∧ ['$', '-', '#', ' '].any isWordChar = false := by
  decide

end DirectoryNotes.Text
