import DirectoryNotes.Json.Basic

/-!
# Tokens of JSON

A text is cut into tokens by going through its characters once. `ScanState` says what the scanner is
in the middle of; `ScanState.step` takes one character and `ScanState.finish` the end of the text.

* Blanks are the space, the tab, the line feed and the carriage return, and nothing else.
* A text may hold any character from the blank on; a `\u` escape stands for one unit of UTF-16.
* A number has no leading zero and no plus sign, and digits on both sides of its point.
-/

namespace DirectoryNotes.Json

/-- A token. -/
inductive Token where
  | openList
  | closeList
  | openObject
  | closeObject
  | comma
  | colon
  /-- A value that is one token. -/
  | value (v : Json)

/-! ## Numbers -/

/-- The exponent of a number, from its mark on; nothing is also one. -/
def isExponent : List Char → Bool
  | [] => true
  | e :: rest =>
    let unsigned := match rest with
      | '+' :: digits => digits
      | '-' :: digits => digits
      | digits => digits
    (e == 'e' || e == 'E') && !unsigned.isEmpty && unsigned.all Char.isDigit

/-- What may follow the integer part of a number. -/
def isFraction : List Char → Bool
  | '.' :: rest =>
    !(rest.takeWhile Char.isDigit).isEmpty && isExponent (rest.dropWhile Char.isDigit)
  | rest => isExponent rest

/-- The number that is written without its sign. -/
def unsigned? (negative : Bool) (chars : List Char) : Option Json :=
  let whole := chars.takeWhile Char.isDigit
  let rest := chars.dropWhile Char.isDigit
  if whole = [] ∨ (whole.head? = some '0' ∧ whole.length > 1) ∨ !isFraction rest then none
  else
    let n := Nat.ofDigitChars 10 whole 0
    if rest = [] ∧ !(negative && n == 0) then
      some (.integer (if negative then -(n : Int) else n))
    else some (.decimal (if negative then '-' :: chars else chars))

/-- The number that is written so. -/
def number? : List Char → Option Json
  | '-' :: chars => unsigned? true chars
  | chars => unsigned? false chars

/-- The value that a word stands for. -/
def word? (letters : List Char) : Option Json :=
  if letters = "true".toList then some (.bool true)
  else if letters = "false".toList then some (.bool false)
  else if letters = "null".toList then some .null
  else none

/-! ## Texts -/

/-- Whether a unit of UTF-16 is the first of a pair. -/
def isHighSurrogate (n : Nat) : Bool := 0xD800 ≤ n && n ≤ 0xDBFF

/-- Whether a unit of UTF-16 is the second of a pair. -/
def isLowSurrogate (n : Nat) : Bool := 0xDC00 ≤ n && n ≤ 0xDFFF

/-- The characters that code points and pairs of surrogates stand for. -/
def charsOfUnits? : List Nat → Option (List Char)
  | [] => some []
  | [n] =>
    if isHighSurrogate n || isLowSurrogate n then none else some [Char.ofNat n]
  | n :: m :: rest =>
    if isHighSurrogate n && isLowSurrogate m then
      (charsOfUnits? rest).map (Char.ofNat (0x10000 + (n - 0xD800) * 0x400 + (m - 0xDC00)) :: ·)
    else if isHighSurrogate n || isLowSurrogate n then none
    else (charsOfUnits? (m :: rest)).map (Char.ofNat n :: ·)

/-- The value of a text from its units in reverse. -/
def textOfUnits (reversed : List Nat) : Json :=
  match charsOfUnits? reversed.reverse with
  | some chars => .text (.ofList chars)
  | none => .broken

/-- The value of a hexadecimal digit. -/
def hexValue? (c : Char) : Option Nat :=
  let n := c.toNat
  if 48 ≤ n ∧ n ≤ 57 then some (n - 48)
  else if 97 ≤ n ∧ n ≤ 102 then some (n - 87)
  else if 65 ≤ n ∧ n ≤ 70 then some (n - 55)
  else none

/-- The unit that a letter after a backslash stands for. -/
def shortEscape? (c : Char) : Option Nat :=
  if c = '\x22' ∨ c = '\\' ∨ c = '/' then some c.toNat
  else if c = 'b' then some 8
  else if c = 'f' then some 12
  else if c = 'n' then some 10
  else if c = 'r' then some 13
  else if c = 't' then some 9
  else none

/-! ## The scanner -/

/-- What the scanner is in the middle of. Everything is kept in reverse. -/
inductive ScanState where
  | between
  | word (letters : List Char)
  | number (chars : List Char)
  | text (units : List Nat)
  /-- Just after a backslash. -/
  | escape (units : List Nat)
  /-- After `\u` and some of its four digits. -/
  | unicode (units : List Nat) (seen : Nat) (value : Nat)

namespace ScanState

/-- Whether a number may go on with a character. -/
def isNumberChar (c : Char) : Bool :=
  c.isDigit || c == '-' || c == '+' || c == '.' || c == 'e' || c == 'E'

/-- The token and the state after a character that follows a whole token. -/
def start (c : Char) : Option (List Token × ScanState) :=
  if c = ' ' ∨ c = '\n' ∨ c = '\t' ∨ c = '\r' then some ([], between)
  else if c = '[' then some ([.openList], between)
  else if c = ']' then some ([.closeList], between)
  else if c = '\x7b' then some ([.openObject], between)
  else if c = '\x7d' then some ([.closeObject], between)
  else if c = ',' then some ([.comma], between)
  else if c = ':' then some ([.colon], between)
  else if c = '\x22' then some ([], text [])
  else if c.isDigit ∨ c = '-' then some ([], number [c])
  else if c.isLower then some ([], word [c])
  else none

/-- The tokens that a character completes, and the state after it. -/
def step : ScanState → Char → Option (List Token × ScanState)
  | between, c => start c
  | word letters, c =>
    if c.isLower then some ([], word (c :: letters))
    else do
      let v ← word? letters.reverse
      let (tokens, next) ← start c
      return (.value v :: tokens, next)
  | number chars, c =>
    if isNumberChar c then some ([], number (c :: chars))
    else do
      let v ← number? chars.reverse
      let (tokens, next) ← start c
      return (.value v :: tokens, next)
  | text units, c =>
    if c = '\x22' then some ([.value (textOfUnits units)], between)
    else if c = '\\' then some ([], escape units)
    else if c.toNat < 0x20 then none
    else some ([], text (c.toNat :: units))
  | escape units, c =>
    if c = 'u' then some ([], unicode units 0 0)
    else (shortEscape? c).map fun n => ([], text (n :: units))
  | unicode units seen value, c =>
    (hexValue? c).map fun d =>
      let value := 16 * value + d
      if seen = 3 then ([], text (value :: units)) else ([], unicode units (seen + 1) value)

/-- The tokens that the end of the text completes. -/
def finish : ScanState → Option (List Token)
  | between => some []
  | word letters => (word? letters.reverse).map ([.value ·])
  | number chars => (number? chars.reverse).map ([.value ·])
  | _ => none

/-- The tokens of a text from a state on. -/
def run : ScanState → List Char → Option (List Token)
  | state, [] => state.finish
  | state, c :: cs => do
    let (tokens, next) ← state.step c
    let rest ← run next cs
    return tokens ++ rest

end ScanState

/-- The tokens of a text. -/
def tokens? (s : List Char) : Option (List Token) := ScanState.between.run s

end DirectoryNotes.Json
