import DirectoryNotes.Ignore.Expression

/-!
# Globs

A glob describes paths by a text with wildcards. A path is looked at as the bytes of its UTF-8 form:
`?` and a class each take one byte.

* `?` takes a byte and `*` any number of bytes, but neither takes a slash;
* `**` between slashes, or at an end, takes any number of directories;
* `[a-z]` takes a byte of the class and `[!a-z]` any other; a class that is not closed is no class;
* `\x7ba,b\x7d` takes one of the alternatives, of which those that take nothing at all do not count;
* a backslash takes the meaning from the character after it.

`Glob.parse` reads a glob, `Glob.items` is the expression that it stands for, and `Glob.covers`
compares it with a path.
-/

namespace DirectoryNotes

/-! ## Parts -/

/-- A part of a glob. -/
inductive GlobPart where
  | literal (c : Char)
  /-- A byte that is not a slash. -/
  | any
  /-- Bytes that are not slashes. -/
  | many
  /-- Directories at the front: nothing, or anything up to a slash. -/
  | leading
  /-- Everything below: a slash and anything after it. -/
  | trailing
  /-- Directories in the middle: a slash, or anything between two slashes. -/
  | between
  /-- A byte that is one of the class, or that is none of them. -/
  | cls (negated : Bool) (ranges : List (Char × Char))
  /-- One of several alternatives. -/
  | alternatives (branches : List (List GlobPart))

/-- Why a text is not a glob. -/
inductive GlobError where
  | invalidRange (first last : Char)
  | unopened
  | unclosed
  | danglingEscape
  deriving DecidableEq, Repr

/-- The reason in words. -/
def GlobError.message : GlobError → String
  | .invalidRange first last =>
    "invalid range; '" ++ first.toString ++ "' > '" ++ last.toString ++ "'"
  | .unopened =>
    "unopened alternate group; missing '\x7b' (maybe escape '\x7d' with '[\x7d]'?)"
  | .unclosed =>
    "unclosed alternate group; missing '\x7d' (maybe escape '\x7b' with '[\x7b]'?)"
  | .danglingEscape => "dangling '\\'"

/-! ## Classes -/

/-- A class while it is read: its ranges in reverse, and whether a range waits for its end. -/
structure ClassState where
  ranges : List (Char × Char) := []
  inRange : Bool := false

namespace ClassState

/-- Adds the end of the range that waits for it. -/
def closeRange (ranges : List (Char × Char)) (c : Char) : Except GlobError ClassState :=
  match ranges with
  | (first, _) :: rest =>
    if c < first then .error (.invalidRange first c) else .ok ⟨(first, c) :: rest, false⟩
  | [] => .ok ⟨[(c, c)], false⟩

/-- Adds a character. A `-` after the first character announces the end of a range. -/
def add (state : ClassState) (isFirst : Bool) (c : Char) : Except GlobError ClassState :=
  if c = '-' ∧ !isFirst ∧ !state.inRange then .ok { state with inRange := true }
  else if state.inRange then closeRange state.ranges c
  else .ok ⟨(c, c) :: state.ranges, false⟩

/-- All ranges; a `-` at the end stands for itself. -/
def finish (state : ClassState) : List (Char × Char) :=
  (if state.inRange then ('-', '-') :: state.ranges else state.ranges).reverse

/-- Reads a class up to its bracket: the ranges and how many characters they took, the bracket
included. There is none when the bracket is missing. A bracket in the first place stands for
itself. -/
def read (state : ClassState) (isFirst : Bool) (taken : Nat) :
    List Char → Except GlobError (Option (List (Char × Char) × Nat))
  | [] => .ok none
  | c :: cs =>
    if c = ']' ∧ !isFirst then .ok (some (state.finish, taken + 1))
    else do
      let next ← state.add isFirst c
      read next false (taken + 1) cs

end ClassState

/-! ## Reading a glob -/

/-- A glob while it is read. Parts and branches are kept in reverse. -/
structure GlobState where
  /-- The parts of the branch that is read. -/
  parts : List GlobPart := []
  /-- For each group that is open, its branches so far and the parts before the group. -/
  groups : List (List (List GlobPart) × List GlobPart) := []
  /-- The character before the one that comes next. -/
  last : Option Char := none
  /-- A class was not closed; brackets stand for themselves from there on. -/
  plainBrackets : Bool := false
  /-- How many characters that come next belong to what was read already. -/
  skip : Nat := 0

namespace GlobState

/-- Adds a part. -/
def push (state : GlobState) (part : GlobPart) : GlobState :=
  { state with parts := part :: state.parts }

/-- Whether two stars after the parts so far, and before `rest`, stand for directories. -/
def starsMeanDirectories (state : GlobState) (rest : List Char) : Bool :=
  let inGroup := !state.groups.isEmpty
  let follows := state.last == some '/'
    || (inGroup && (state.last == some ',' || state.last == some '\x7b'))
  let ends := rest.isEmpty || rest.head? == some '/'
    || (inGroup && (rest.head? == some ',' || rest.head? == some '\x7d'))
  if state.parts.isEmpty then rest.isEmpty || rest.head? == some '/' else follows && ends

/-- Two stars that stand for directories, before `rest`. The slash before them is part of them, and
so is the slash after them. -/
def pushDirectories (state : GlobState) (rest : List Char) : GlobState :=
  let slash := if rest.head? = some '/' then 1 else 0
  match state.parts with
  | [] => { state.push .leading with skip := 1 + slash }
  | .leading :: _ | .trailing :: _ => { state with skip := 1 + slash }
  | _ :: before =>
    let part := if slash = 1 then GlobPart.between else .trailing
    { state with parts := part :: before, skip := 1 + slash }

/-- Adds what a star stands for, before `rest`. -/
def pushStar (state : GlobState) (rest : List Char) : GlobState :=
  match rest with
  | '*' :: rest =>
    if state.starsMeanDirectories rest then state.pushDirectories rest
    else { (state.push .many).push .many with skip := 1 }
  | _ => state.push .many

/-- Adds the class that a bracket before `rest` opens, or the bracket itself. -/
def pushClass (state : GlobState) (rest : List Char) : Except GlobError GlobState := do
  let negated := rest.head? = some '!' ∨ rest.head? = some '^'
  let sign := if negated then 1 else 0
  match ← ClassState.read {} true 0 (rest.drop sign) with
  | some (ranges, taken) =>
    return { state.push (.cls negated ranges) with skip := sign + taken }
  | none => return { state.push (.literal '[') with plainBrackets := true }

/-- Ends the branch that is read, and with it the innermost group. -/
def closeGroup (state : GlobState) : Except GlobError GlobState :=
  match state.groups with
  | [] => .error .unopened
  | (branches, before) :: groups =>
    let all := ((state.parts :: branches).map List.reverse).reverse
    .ok { state with parts := .alternatives all :: before, groups := groups }

/-- Ends the branch that is read and begins the next; outside a group a comma stands for itself. -/
def nextBranch (state : GlobState) : GlobState :=
  match state.groups with
  | [] => state.push (.literal ',')
  | (branches, before) :: groups =>
    { state with parts := [], groups := (state.parts :: branches, before) :: groups }

/-- Adds what a character stands for, before `rest`. -/
def add (state : GlobState) (c : Char) (rest : List Char) : Except GlobError GlobState :=
  if c = '?' then .ok (state.push .any)
  else if c = '*' then .ok (state.pushStar rest)
  else if c = '[' ∧ !state.plainBrackets then state.pushClass rest
  else if c = '\x7b' then
    .ok { state with parts := [], groups := ([], state.parts) :: state.groups }
  else if c = '\x7d' then state.closeGroup
  else if c = ',' then .ok state.nextBranch
  else if c = '\\' then
    match rest with
    | [] => .error .danglingEscape
    | d :: _ => .ok { state.push (.literal d) with skip := 1 }
  else .ok (state.push (.literal c))

/-- The parts of the whole glob. -/
def finish (state : GlobState) : Except GlobError (List GlobPart) :=
  if state.groups.isEmpty then .ok state.parts.reverse else .error .unclosed

/-- Reads the rest of a glob. -/
def run (state : GlobState) : List Char → Except GlobError (List GlobPart)
  | [] => state.finish
  | c :: rest =>
    if state.skip > 0 then run { state with skip := state.skip - 1, last := some c } rest
    else do
      let next ← state.add c rest
      run { next with last := some c } rest

end GlobState

/-- A glob: its parts. -/
structure Glob where
  parts : List GlobPart

/-- The glob that a text stands for. -/
def Glob.parse (s : List Char) : Except GlobError Glob := do
  return ⟨← GlobState.run {} s⟩

/-! ## Expressions -/

namespace GlobPart

/-- The bytes of a character. -/
def bytesOf (c : Char) : List UInt8 := (String.singleton c).toUTF8.toList

/-- The bytes of a range of characters. Of characters with several bytes, the range goes from the
last byte of the first to the first byte of the last, and the other bytes count alone. -/
def byteRanges (range : Char × Char) : List (UInt8 × UInt8) :=
  let alone (bytes : List UInt8) := bytes.map fun b => (b, b)
  let first := bytesOf range.1
  let last := bytesOf range.2
  if range.1 = range.2 then alone first
  else
    alone first.dropLast ++ (first.getLast?.getD 0, last.head?.getD 0) :: alone last.tail

/-- The byte of the slash. -/
def slash : ByteSet := .single 0x2F

/-- Every byte but the slash. -/
def noSlash : ByteSet := .ranges true [(0x2F, 0x2F)]

mutual

/-- What a part stands for: expressions that follow one another. -/
def items : GlobPart → List ByteExpression
  | .literal c => (bytesOf c).map fun b => .one (.single b)
  | .any => [.one noSlash]
  | .many => [.many noSlash]
  | .leading => [.choice [.optional slash, .sequence [.many .all, .one slash]]]
  | .trailing => [.one slash, .many .all]
  | .between => [.choice [.one slash, .sequence [.one slash, .many .all, .one slash]]]
  | .cls negated ranges => [.one (.ranges negated (ranges.flatMap byteRanges))]
  | .alternatives branches =>
    match branchItems branches with
    | [] => []
    | choices => [.choice choices]

/-- What parts that follow one another stand for. -/
def allItems : List GlobPart → List ByteExpression
  | [] => []
  | part :: rest => items part ++ allItems rest

/-- What the branches stand for, those that take nothing at all left out. -/
def branchItems : List (List GlobPart) → List ByteExpression
  | [] => []
  | branch :: rest =>
    match allItems branch with
    | [] => branchItems rest
    | taken => .sequence taken :: branchItems rest

end

end GlobPart

namespace Glob

/-- The character of a part that stands for itself. -/
def literal? : GlobPart → Option Char
  | .literal c => some c
  | _ => none

/-- Whether all parts are characters that stand for themselves. -/
def areLiterals (parts : List GlobPart) : Bool :=
  parts.all fun part => (literal? part).isSome

/-- Whether the parts spell out a path, from the root or at any depth. -/
def spellsPath : List GlobPart → Bool
  | .leading :: rest => areLiterals rest && rest.any (literal? · == some '/')
  | parts => areLiterals parts

/-- Whether the parts ask for a name that ends in a point, and do not spell out where it is. -/
def asksForPoint (parts : List GlobPart) : Bool :=
  parts.getLast?.bind literal? == some '.' && !spellsPath parts

/-- Whether a path ends in `..`, which is no name. -/
def endsAbove (path : String) : Bool :=
  path.toList.reverse.takeWhile (· != '/') == ['.', '.']

/-- What the glob stands for. The glob that is `**` and nothing else takes every path. -/
def items (g : Glob) : List ByteExpression :=
  match g.parts with
  | [.leading] => [.many .all]
  | parts => GlobPart.allItems parts

/-- Whether a path matches. A path that ends in no name is not matched by a glob that asks for
one. -/
def covers (g : Glob) (path : String) : Bool :=
  !(asksForPoint g.parts && endsAbove path)
    && (ByteExpression.sequence g.items).accepts path.toUTF8.toList

/-! ## Depth

An expression must not nest too deep. Globs that are plain, a text and perhaps directories around it,
are shallow and need no expression. The others fall into those that end in an extension and those
that do not, and a fault is told apart by that.
-/

/-- The written form of the whole expression, with the marks of its start and its end. -/
def text (g : Glob) : String :=
  "(?-u)^" ++ (ByteExpression.sequence g.items).text ++ "$"

/-- How deep the whole expression nests; with its marks it has several items. -/
def depth (g : Glob) : Nat := 1 + ByteExpression.maxDepth g.items

/-- How deep an expression may nest. -/
def depthLimit : Nat := 250

/-- Whether the expression nests too deep. -/
def isTooDeep (g : Glob) : Bool := depthLimit < g.depth

/-- Whether the parts are any name with one extension, at any depth. -/
def areAnyWithExtension : List GlobPart → Bool
  | .leading :: .many :: .literal '.' :: extension =>
    areLiterals extension
      && !extension.any fun part => literal? part == some '.' || literal? part == some '/'
  | _ => false

/-- Whether the glob is a text with directories around it, or any name with one extension. -/
def isPlain (g : Glob) : Bool :=
  areAnyWithExtension g.parts ||
    match g.parts with
    | [] => false
    | .leading :: rest => !rest.isEmpty && areLiterals rest
    | parts =>
      areLiterals parts
        || match parts.getLast? with
          | some .trailing => areLiterals parts.dropLast
          | _ => false

/-- Whether characters at the end of the parts, counted from the last, spell an extension. -/
def endInExtension : List GlobPart → Bool
  | .literal c :: rest => c == '.' || (c != '/' && endInExtension rest)
  | _ => false

/-- Whether the glob needs an expression and ends in an extension. -/
def isExtended (g : Glob) : Bool := !g.isPlain && endInExtension g.parts.reverse

/-- Whether the glob needs an expression and does not end in an extension. -/
def isGeneral (g : Glob) : Bool := !g.isPlain && !endInExtension g.parts.reverse

/-! ## Globs in use -/

/-- Whether a text is a glob that matches a path. -/
def accepts (glob path : String) : Bool :=
  match parse glob.toList with
  | .ok g => g.covers path
  | .error _ => false

example : accepts "**/*.log" "logs/deep/a.log" ∧ !accepts "*.log" "logs/a.log" := by decide +kernel

example : accepts "a/**/b" "a/b" ∧ accepts "a/**/b" "a/x/y/b" := by decide +kernel

example : accepts "**/*." "a/b." ∧ !accepts "**/*." "a/.." ∧ accepts "a/.." "a/.." := by
  decide +kernel

example : accepts "\x7ba,b\x7d[!0-9]" "bx" ∧ accepts "[a" "[a" := by decide +kernel

end Glob

end DirectoryNotes
