import DirectoryNotes.Json.Reader

/-!
# The grammar of JSON

Which texts are JSON, and what each of them is written for. A text may have blanks wherever two of its
parts meet, may spell a character in several ways, and may have any value inside another:

* `IsGap`: blanks;
* `IsNumber`: numbers, with the value of those that are integers;
* `IsSpelled`: what stands between quotes, with its units;
* `IsWritten`: the parts of a text, from single values to the fields of an object;
* `IsText`: whole texts.
-/

namespace DirectoryNotes.Json

/-! ## Blanks -/

/-- A character that may stand between two parts. -/
def IsBlank (c : Char) : Prop := c = ' ' ∨ c = '\n' ∨ c = '\t' ∨ c = '\r'

/-- Any number of blanks. -/
def IsGap (cs : List Char) : Prop := ∀ c ∈ cs, IsBlank c

instance (c : Char) : Decidable (IsBlank c) :=
  inferInstanceAs (Decidable (c = ' ' ∨ c = '\n' ∨ c = '\t' ∨ c = '\r'))

instance (cs : List Char) : Decidable (IsGap cs) :=
  List.decidableBAll IsBlank cs

/-! ## Numbers -/

/-- One digit or more. -/
structure IsDigits (cs : List Char) : Prop where
  ne_nil : cs ≠ []
  all : ∀ c ∈ cs, c.isDigit = true

/-- The integer part of a number: a zero alone, or digits of which the first is no zero. -/
structure IsWhole (cs : List Char) : Prop extends IsDigits cs where
  zero_alone : cs.head? = some '0' → cs = ['0']

/-- The digits after the point, if there is a point. -/
inductive IsFractionPart : List Char → Prop
  | nil : IsFractionPart []
  | point {ds : List Char} : IsDigits ds → IsFractionPart ('.' :: ds)

/-- The exponent with its mark and its sign, if there is one. -/
inductive IsExponentPart : List Char → Prop
  | nil : IsExponentPart []
  | mark {e : Char} {sign ds : List Char} : e = 'e' ∨ e = 'E' →
      sign = [] ∨ sign = ['+'] ∨ sign = ['-'] → IsDigits ds → IsExponentPart (e :: sign ++ ds)

/-- Characters that a number is written with. One with a fraction or an exponent is no integer, and
neither is a zero with a sign. -/
inductive IsNumber : List Char → Json → Prop
  | natural {ds : List Char} : IsWhole ds → IsNumber ds (.integer (Nat.ofDigitChars 10 ds 0))
  | negative {ds : List Char} : IsWhole ds → 0 < Nat.ofDigitChars 10 ds 0 →
      IsNumber ('-' :: ds) (.integer (-(Nat.ofDigitChars 10 ds 0 : Int)))
  | negativeZero : IsNumber ['-', '0'] (.decimal ['-', '0'])
  | decimal {sign ds point power : List Char} : sign = [] ∨ sign = ['-'] → IsWhole ds →
      IsFractionPart point → IsExponentPart power → point ++ power ≠ [] →
      IsNumber (sign ++ ds ++ point ++ power) (.decimal (sign ++ ds ++ point ++ power))

/-! ## Texts -/

/-- Characters between quotes, and the units that they stand for. -/
inductive IsSpelled : List Char → List Nat → Prop
  | nil : IsSpelled [] []
  /-- A character that stands for itself. -/
  | plain {c : Char} {cs : List Char} {units : List Nat} : c ≠ '\x22' → c ≠ '\\' → 0x20 ≤ c.toNat →
      IsSpelled cs units → IsSpelled (c :: cs) (c.toNat :: units)
  /-- A letter after a backslash. -/
  | letter {c : Char} {n : Nat} {cs : List Char} {units : List Nat} : shortEscape? c = some n →
      IsSpelled cs units → IsSpelled ('\\' :: c :: cs) (n :: units)
  /-- A unit by its four digits. -/
  | code {a b c d : Char} {i j k l : Nat} {cs : List Char} {units : List Nat} :
      hexValue? a = some i → hexValue? b = some j → hexValue? c = some k → hexValue? d = some l →
      IsSpelled cs units →
      IsSpelled ('\\' :: 'u' :: a :: b :: c :: d :: cs)
        ((16 * (16 * (16 * i + j) + k) + l) :: units)

/-- The name of a field that is spelled with these units, if they stand for a text. -/
def nameOfUnits? (units : List Nat) : Option String := (charsOfUnits? units).map String.ofList

/-! ## Values -/

/-- A part of a text, by what it is written for. -/
inductive Part where
  /-- A value without blanks around it. -/
  | value (v : Json)
  /-- A value and the blanks around it. -/
  | element (v : Json)
  /-- The items of a list, at least one. -/
  | items (vs : List Json)
  | field (name? : Option String) (v : Json)
  /-- The fields of an object, at least one. -/
  | fields (fs : OpenFields)

/-- Characters that a part is written with. -/
inductive IsWritten : Part → List Char → Prop
  | null : IsWritten (.value .null) ['n', 'u', 'l', 'l']
  | false : IsWritten (.value (.bool false)) ['f', 'a', 'l', 's', 'e']
  | true : IsWritten (.value (.bool true)) ['t', 'r', 'u', 'e']
  | number {v : Json} {cs : List Char} : IsNumber cs v → IsWritten (.value v) cs
  | text {units : List Nat} {cs : List Char} : IsSpelled cs units →
      IsWritten (.value (textOfUnits units.reverse)) ('\x22' :: cs ++ ['\x22'])
  | emptyList {gap : List Char} : IsGap gap → IsWritten (.value (.list [])) ('[' :: gap ++ [']'])
  | list {vs : List Json} {cs : List Char} : IsWritten (.items vs) cs →
      IsWritten (.value (.list vs)) ('[' :: cs ++ [']'])
  | emptyObject {gap : List Char} : IsGap gap →
      IsWritten (.value (.object [])) ('\x7b' :: gap ++ ['\x7d'])
  | object {fs : OpenFields} {cs : List Char} : IsWritten (.fields fs) cs →
      IsWritten (.value (OpenFields.close fs.reverse)) ('\x7b' :: cs ++ ['\x7d'])
  | element {v : Json} {before cs after : List Char} : IsGap before → IsWritten (.value v) cs →
      IsGap after → IsWritten (.element v) (before ++ cs ++ after)
  | item {v : Json} {cs : List Char} : IsWritten (.element v) cs → IsWritten (.items [v]) cs
  | items {v : Json} {vs : List Json} {cs ds : List Char} : IsWritten (.element v) cs →
      IsWritten (.items vs) ds → IsWritten (.items (v :: vs)) (cs ++ ',' :: ds)
  | field {v : Json} {units : List Nat} {before name after cs : List Char} : IsGap before →
      IsSpelled name units → IsGap after → IsWritten (.element v) cs →
      IsWritten (.field (nameOfUnits? units) v)
        (before ++ '\x22' :: name ++ '\x22' :: after ++ ':' :: cs)
  | lastField {name? : Option String} {v : Json} {cs : List Char} : IsWritten (.field name? v) cs →
      IsWritten (.fields [(name?, v)]) cs
  | fields {name? : Option String} {v : Json} {fs : OpenFields} {cs ds : List Char} :
      IsWritten (.field name? v) cs → IsWritten (.fields fs) ds →
      IsWritten (.fields ((name?, v) :: fs)) (cs ++ ',' :: ds)

/-- Texts that a value is written with. -/
def IsText (v : Json) (s : String) : Prop := IsWritten (.element v) s.toList

end DirectoryNotes.Json
