import DirectoryNotes.Pattern.Basic
import DirectoryNotes.Text.Class

/-!
# Patterns of declarations

What an import, an export or a declaration looks like in the text of a module. Every pattern begins
with the first character of a line that is not blank, and blanks within it may include line ends. The
doc comment of each one names its groups.
-/

namespace DirectoryNotes.Source

open Pattern
open Text (isBlank isWordChar)

/-! ## Parts -/

/-- Blanks, or none. -/
def blanks : Pattern := .run isBlank

/-- At least one blank. -/
def gap : Pattern := atLeastOne isBlank

/-- Blanks within a line, or none. -/
def space : Pattern := .run fun c => isBlank c && c != '\n'

/-- Characters that an identifier may begin with. -/
def isNameStart (c : Char) : Bool := c.isAlpha || c == '_' || c == '$'

/-- Characters that an identifier may go on with. -/
def isNameChar (c : Char) : Bool := isWordChar c || c == '$'

/-- An identifier. -/
def name : Pattern := .one isNameStart ++ .run isNameChar

/-- One given character. -/
def char (c : Char) : Pattern := .one (· == c)

/-- Blanks up to the end of a line, the last one that they reach. -/
def toLineEnd : Pattern := space ++ .repeated (char '\n' ++ space) ++ .lineEnd

/-- Any character but the given one. -/
def except (c : Char) : Char → Bool := (· != c)

/-- The quotes around a module. -/
def isQuote (c : Char) : Bool := c == '\x27' || c == '\x22'

/-- A word followed by a gap, or nothing. -/
def maybeWord (s : String) : Pattern := maybe (literal s ++ gap)

/-- Text between two braces. -/
def braced (inner : Pattern) : Pattern := char '{' ++ inner ++ char '}'

/-- Type parameters between angle brackets, or nothing. -/
def typeParameters : Pattern :=
  maybe (char '<' ++ .run (fun c => c != '>' && c != '(') ++ char '>')

/-- The clause that names the module of an import; group `n` is the module. -/
def fromModule (n : Nat) : Pattern :=
  literal "from" ++ gap ++ .one isQuote ++ .group n (atLeastOne (!isQuote ·)) ++ .one isQuote

/-! ## Imports -/

/-- An import of a whole module under one name: 1 the name, 2 the module. -/
def importWildcard : Pattern :=
  literal "import" ++ gap ++ char '*' ++ gap ++ literal "as" ++ gap ++ .group 1 name ++ gap
    ++ fromModule 2

/-- An import of the default export, other imports may stand beside it: 1 the name, 2 the
module. -/
def importDefault : Pattern :=
  literal "import" ++ gap ++ .group 1 name
    ++ maybe (blanks ++ char ',' ++ blanks
        ++ .choice (braced (.run (except '}')))
            (char '*' ++ gap ++ literal "as" ++ gap ++ atLeastOne isNameChar))
    ++ gap ++ fromModule 2

/-- An import of names between braces: 1 the text between the braces, 2 the module. -/
def importNamed : Pattern :=
  literal "import" ++ gap ++ maybeWord "type" ++ maybe (name ++ blanks ++ char ',' ++ blanks)
    ++ braced (.group 1 (.run (except '}'))) ++ blanks ++ fromModule 2

/-! ## Exports -/

/-- An exported declaration: 1 the word that marks the default export, 2 the word that declares,
3 the name. -/
def exportDeclaration : Pattern :=
  literal "export" ++ gap ++ maybe (.group 1 (literal "default" ++ gap)) ++ maybeWord "declare"
    ++ maybeWord "async"
    ++ .group 2
        (.choice (literal "function" ++ maybe (blanks ++ char '*'))
          (.choice (literal "abstract" ++ gap ++ literal "class")
            (oneOf ["class", "interface", "const", "let", "var", "type", "enum"])))
    ++ gap ++ .group 3 name

/-- A name exported as the default, up to the end of a line: 1 the name. -/
def exportDefaultName : Pattern :=
  literal "export" ++ gap ++ literal "default" ++ gap ++ .group 1 name
    ++ .choice (blanks ++ char ';' ++ toLineEnd) toLineEnd

/-! ## Functions -/

/-- A declared function: 1 it is exported, 2 it is asynchronous, 3 the name, 4 the parameters. -/
def functionDeclaration : Pattern :=
  maybe (.group 1 (literal "export" ++ gap)) ++ maybeWord "default"
    ++ maybe (.group 2 (literal "async" ++ gap)) ++ literal "function" ++ blanks
    ++ maybe (char '*') ++ blanks ++ .group 3 name ++ blanks ++ typeParameters ++ blanks
    ++ char '(' ++ .group 4 (.run (except ')')) ++ char ')'

/-- The text of a type within a line, up to an equals sign. -/
def typeText : Pattern := atLeastOne fun c => c != '=' && c != '\n'

/-- A name bound to an arrow function: 1 it is exported, 2 the name, 3 it is asynchronous. The type
of its result may begin on a later line. -/
def arrowFunction : Pattern :=
  maybe (.group 1 (literal "export" ++ gap)) ++ oneOf ["const", "let", "var"] ++ gap
    ++ .group 2 name ++ blanks ++ maybe (char ':' ++ typeText) ++ char '=' ++ blanks
    ++ maybe (.group 3 (literal "async" ++ gap))
    ++ .choice (char '(' ++ .run (except ')') ++ char ')') name ++ blanks
    ++ maybe (char ':' ++ .repeated (space ++ char '\n') ++ typeText) ++ literal "=>"

/-! ## Classes and interfaces -/

/-- A declared class up to its opening brace: 1 it is exported, 2 the name. -/
def classDeclaration : Pattern :=
  maybe (.group 1 (literal "export" ++ gap)) ++ maybeWord "default" ++ maybeWord "abstract"
    ++ literal "class" ++ gap ++ .group 2 name ++ .run (except '{') ++ char '{'

/-- A method inside a class body up to its opening brace: 1 the name. -/
def method : Pattern :=
  .repeated (oneOf ["public", "private", "protected", "static", "async", "readonly", "override",
      "abstract", "get", "set"] ++ gap)
    ++ maybe (char '*') ++ blanks
    ++ .group 1 (.one (fun c => isNameStart c || c == '#') ++ .run isNameChar) ++ blanks
    ++ typeParameters ++ blanks ++ char '(' ++ .run (except ')') ++ char ')' ++ blanks
    ++ maybe (char ':' ++ atLeastOne (fun c => c != '{' && c != ';' && c != '=')) ++ char '{'

/-- A declared interface up to its opening brace: 1 it is exported, 2 the name. -/
def interfaceDeclaration : Pattern :=
  maybe (.group 1 (literal "export" ++ gap)) ++ maybeWord "declare" ++ literal "interface" ++ gap
    ++ .group 2 name ++ .run (except '{') ++ char '{'

/-- A property inside an interface body up to its colon: 1 the name. -/
def property : Pattern :=
  maybeWord "readonly" ++ .group 1 name ++ maybe (char '?') ++ blanks ++ char ':'

end DirectoryNotes.Source
