import DirectoryNotes.Text.Class

/-!
# Patterns over characters

A pattern describes a stretch of text together with the parts of it that are wanted (its groups).
Matching goes through the ways to match in order of preference: the left side of a choice before the
right one, more repetitions before fewer. The first way after which everything that follows matches
too is the one that counts, so a match is unique.

* `Pattern`: the forms; `Pattern.attempt` tries one at a place and continues with what follows;
* `Pattern.matchAt?`: the match that begins at a given place, if there is one;
* `Pattern.inLines`: all matches that begin a line, from the first to the last and without overlap.

A run of characters is taken as a whole and never given back in part. What follows a run in a pattern
begins with a character outside its class, so nothing is lost by that.
-/

namespace DirectoryNotes

/-! ## Places -/

/-- A place in a text: how many characters lie before it, and what follows. -/
structure Cursor where
  index : Nat
  rest : List Char

namespace Cursor

/-- The place before the first character. -/
def start (text : List Char) : Cursor := ⟨0, text⟩

/-- Nothing or a line feed follows this place. -/
def atLineEnd (here : Cursor) : Bool := here.rest.isEmpty || here.rest.head? == some '\n'

/-- The text between this place and a later one. -/
def textTo (here there : Cursor) : List Char := here.rest.take (there.index - here.index)

end Cursor

/-! ## Patterns -/

/-- A pattern over characters. -/
inductive Pattern where
  /-- Matches without taking anything. -/
  | empty
  /-- Matches where a line ends. -/
  | lineEnd
  /-- Takes one character of a class. -/
  | one (cls : Char → Bool)
  /-- Takes the whole run of characters of a class, which may be none. -/
  | run (cls : Char → Bool)
  /-- One pattern and then the other. -/
  | seq (p q : Pattern)
  /-- The first pattern, or else the second. -/
  | choice (p q : Pattern)
  /-- A pattern any number of times, more before fewer; it takes something each time. -/
  | repeated (p : Pattern)
  /-- A pattern whose text is wanted under a number. -/
  | group (n : Nat) (p : Pattern)

/-- The texts of the groups that were passed, the latest first. -/
abbrev Groups := List (Nat × List Char)

namespace Pattern

/-- The place after the run of characters in `cls`. -/
def afterRun (cls : Char → Bool) (index : Nat) : List Char → Cursor
  | [] => ⟨index, []⟩
  | c :: cs => if cls c then afterRun cls (index + 1) cs else ⟨index, c :: cs⟩

/-- Tries `step` as often in a row as there are characters in `bound` at most, more before fewer, and
then `k`. -/
def repeatThen (step : Cursor → Groups → (Cursor → Groups → Option α) → Option α)
    (k : Cursor → Groups → Option α) : List Char → Cursor → Groups → Option α
  | [], here, groups => k here groups
  | _ :: bound, here, groups =>
    match step here groups fun there groups => repeatThen step k bound there groups with
    | some found => some found
    | none => k here groups

/-- Matches a pattern at a place and continues with `k`: the result of the first way to match after
which `k` has one. A repetition takes something each time, so the characters that follow bound
it. -/
def attempt : Pattern → Cursor → Groups → (Cursor → Groups → Option α) → Option α
  | .empty, here, groups, k => k here groups
  | .lineEnd, here, groups, k => if here.atLineEnd then k here groups else none
  | .one cls, here, groups, k =>
    match here.rest with
    | [] => none
    | c :: cs => if cls c then k ⟨here.index + 1, cs⟩ groups else none
  | .run cls, here, groups, k => k (afterRun cls here.index here.rest) groups
  | .seq p q, here, groups, k =>
    attempt p here groups fun there groups => attempt q there groups k
  | .choice p q, here, groups, k =>
    match attempt p here groups k with
    | some found => some found
    | none => attempt q here groups k
  | .repeated p, here, groups, k =>
    repeatThen (fun here groups k => attempt p here groups k) k here.rest here groups
  | .group n p, here, groups, k =>
    attempt p here groups fun there groups => k there ((n, here.textTo there) :: groups)

end Pattern

/-! ## Matches -/

/-- A match: where it begins, where it ends, and the texts of its groups. -/
structure Match where
  start : Cursor
  stop : Cursor
  groups : Groups

namespace Match

/-- The text of a group, if the match passed it. -/
def group? (m : Match) (n : Nat) : Option (List Char) := m.groups.lookup n

/-- The text of a group that every match passes. -/
def group (m : Match) (n : Nat) : String := .ofList ((m.group? n).getD [])

/-- Whether the match passed a group. -/
def has (m : Match) (n : Nat) : Bool := (m.group? n).isSome

/-- How many characters the match takes. -/
def length (m : Match) : Nat := m.stop.index - m.start.index

end Match

namespace Pattern

/-- The match that begins at a place. -/
def matchAt? (p : Pattern) (here : Cursor) : Option Match :=
  p.attempt here [] fun there groups => some ⟨here, there, groups⟩

/-- The matches from a place on, after passing over `skip` characters; `fresh` says that there are
only blanks between the beginning of the line and the place. -/
def inLinesFrom (p : Pattern) (index : Nat) (fresh : Bool) (skip : Nat) : List Char → List Match
  | [] => []
  | c :: cs =>
    if skip > 0 then inLinesFrom p (index + 1) (c == '\n') (skip - 1) cs
    else if Text.isBlank c then inLinesFrom p (index + 1) (fresh || c == '\n') 0 cs
    else
      match if fresh then p.matchAt? ⟨index, c :: cs⟩ else none with
      | some m => m :: inLinesFrom p (index + 1) false (m.length - 1) cs
      | none => inLinesFrom p (index + 1) false 0 cs

/-- All matches in a text that begin with the first character of a line that is not blank. They do
not overlap: after a match the search goes on where it ended. -/
def inLines (p : Pattern) (text : List Char) : List Match :=
  p.inLinesFrom 0 true 0 text

/-! ## Writing patterns -/

instance : Append Pattern := ⟨.seq⟩

/-- The characters of a text, one after the other. -/
def literal (s : String) : Pattern :=
  s.toList.foldr (fun c p => .seq (.one (· == c)) p) .empty

/-- One of several texts, earlier ones first. -/
def oneOf : List String → Pattern
  | [] => .one fun _ => false
  | [s] => literal s
  | s :: rest => .choice (literal s) (oneOf rest)

/-- A pattern or nothing, the pattern first. -/
def maybe (p : Pattern) : Pattern := .choice p .empty

/-- One character of a class and all that follow it. -/
def atLeastOne (cls : Char → Bool) : Pattern := .one cls ++ .run cls

end Pattern

end DirectoryNotes
