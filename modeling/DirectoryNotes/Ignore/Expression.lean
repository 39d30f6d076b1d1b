/-!
# Regular expressions over bytes

The expressions that globs stand for: sets of bytes, one after another, any number of times, or as
one of several choices.

* `ByteExpression.accepts`: whether the expression takes a list of bytes as a whole;
* `ByteExpression.text`: the written form;
* `ByteExpression.depth`: how many brackets, choices, sequences and repetitions stand around its
  innermost part.

Matching goes from the last byte to the first. For each place in the bytes it is known whether what
follows in the expression takes all that follows in the bytes, and each part of the expression turns
one such table into the next.
-/

namespace DirectoryNotes

/-! ## Sets of bytes -/

/-- A set of bytes. -/
inductive ByteSet where
  | single (b : UInt8)
  | all
  /-- The bytes in one of the ranges, or those in none of them. -/
  | ranges (negated : Bool) (items : List (UInt8 × UInt8))
  deriving DecidableEq, Repr

namespace ByteSet

/-- Whether a byte is in the set. -/
def contains (set : ByteSet) (b : UInt8) : Bool :=
  match set with
  | .single a => a == b
  | .all => true
  | .ranges negated items => (items.any fun item => item.1 ≤ b && b ≤ item.2) != negated

/-- The characters that mean something in an expression. -/
def marks : List Char :=
  ['\\', '.', '+', '*', '?', '(', ')', '|', '[', ']', '\x7b', '\x7d', '^', '$', '#', '&', '-', '~']

/-- A byte as it is written. -/
def byteText (b : UInt8) : String :=
  if b < 0x80 then
    let c := Char.ofNat b.toNat
    if marks.contains c then "\\" ++ c.toString else c.toString
  else "\\x" ++ .ofList (Nat.toDigits 16 b.toNat)

/-- A range as it is written. -/
def rangeText (item : UInt8 × UInt8) : String :=
  if item.1 = item.2 then byteText item.1 else byteText item.1 ++ "-" ++ byteText item.2

/-- The set as it is written. -/
def text : ByteSet → String
  | .single b => byteText b
  | .all => "."
  | .ranges negated items =>
    "[" ++ (if negated then "^" else "") ++ .join (items.map rangeText) ++ "]"

/-- The depth of the set: its brackets, and within them the union of several ranges. -/
def depth : ByteSet → Nat
  | .ranges _ items => if items.length > 1 then 2 else 1
  | _ => 0

end ByteSet

/-! ## Expressions -/

/-- A regular expression over bytes. -/
inductive ByteExpression where
  /-- A byte of the set. -/
  | one (set : ByteSet)
  /-- A byte of the set or nothing. -/
  | optional (set : ByteSet)
  /-- Any number of bytes of the set. -/
  | many (set : ByteSet)
  /-- All items in their order. -/
  | sequence (items : List ByteExpression)
  /-- One of the branches, in parentheses. -/
  | choice (branches : List ByteExpression)

namespace ByteExpression

mutual

/-- The expression as it is written. -/
def text : ByteExpression → String
  | .one set => set.text
  | .optional set => set.text ++ "?"
  | .many set => set.text ++ "*"
  | .sequence items => .join (texts items)
  | .choice branches => "(?:" ++ "|".intercalate (texts branches) ++ ")"

/-- The expressions as they are written. -/
def texts : List ByteExpression → List String
  | [] => []
  | e :: rest => text e :: texts rest

end

mutual

/-- How deep the expression nests. A sequence or a choice of one item is that item. -/
def depth : ByteExpression → Nat
  | .one set => set.depth
  | .optional set => set.depth + 1
  | .many set => set.depth + 1
  | .sequence items => (if items.length > 1 then 1 else 0) + maxDepth items
  | .choice branches => 1 + (if branches.length > 1 then 1 else 0) + maxDepth branches

/-- The depth of the deepest expression. -/
def maxDepth : List ByteExpression → Nat
  | [] => 0
  | e :: rest => max (depth e) (maxDepth rest)

end

/-! ## Matching -/

/-- From where there is a byte of the set and then a place of the table. -/
def before (set : ByteSet) : List UInt8 → List Bool → List Bool
  | b :: bytes, _ :: table => (set.contains b && table.headD false) :: before set bytes table
  | _, _ => [false]

/-- From where there is a place of the table after any number of bytes of the set. -/
def beforeMany (set : ByteSet) : List UInt8 → List Bool → List Bool
  | b :: bytes, here :: table =>
    let later := beforeMany set bytes table
    (here || (set.contains b && later.headD false)) :: later
  | _, table => table

/-- The places that are in either table. -/
def either (table other : List Bool) : List Bool :=
  table.zipWith (· || ·) other

mutual

/-- From where the expression leads to a place of the table. -/
def leadingTo (bytes : List UInt8) (e : ByteExpression) (table : List Bool) : List Bool :=
  match e with
  | .one set => before set bytes table
  | .optional set => either table (before set bytes table)
  | .many set => beforeMany set bytes table
  | .sequence items => allLeadingTo bytes items table
  | .choice branches => anyLeadingTo bytes branches table

/-- From where the expressions, one after another, lead to a place of the table. -/
def allLeadingTo (bytes : List UInt8) (items : List ByteExpression) (table : List Bool) :
    List Bool :=
  match items with
  | [] => table
  | e :: rest => leadingTo bytes e (allLeadingTo bytes rest table)

/-- From where one of the expressions leads to a place of the table. -/
def anyLeadingTo (bytes : List UInt8) (branches : List ByteExpression) (table : List Bool) :
    List Bool :=
  match branches with
  | [] => table.map fun _ => false
  | e :: rest => either (leadingTo bytes e table) (anyLeadingTo bytes rest table)

end

/-- The table of the end: the only place with nothing after it. -/
def atEnd (bytes : List UInt8) : List Bool :=
  bytes.map (fun _ => false) ++ [true]

/-- Whether the expression takes all the bytes. -/
def accepts (e : ByteExpression) (bytes : List UInt8) : Bool :=
  (leadingTo bytes e (atEnd bytes)).headD false

/-! ## Small expressions -/

/-- `a*b`. -/
private def someThenB : ByteExpression := .sequence [.many (.single 97), .one (.single 98)]

example : someThenB.accepts [97, 97, 98] ∧ someThenB.accepts [98] ∧ !someThenB.accepts [97] := by
  decide

example : (ByteExpression.choice [someThenB, .optional (.ranges true [(45, 45), (48, 57)])]).text
    = "(?:a*b|[^\\-0-9]?)" := by decide +kernel

example : (ByteExpression.choice [someThenB, .one .all]).depth = 4 := by decide

end ByteExpression

end DirectoryNotes
