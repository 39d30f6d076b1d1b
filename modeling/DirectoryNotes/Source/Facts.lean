/-!
# Facts about a source file

What is known of a source file after reading it: its imports, exports and declarations, and one
sentence on its purpose. The extraction is textual and best effort; nothing here claims that the
facts are a parse of the file.
-/

namespace DirectoryNotes

/-- How an import binds names. -/
inductive ImportKind where
  | named
  | default
  | wildcard
  deriving DecidableEq, Repr

/-- One import: the module as written, and the names it binds. -/
structure Import where
  source : String
  specifiers : List String
  kind : ImportKind
  deriving DecidableEq, Repr

/-- Whether the module is a package and not a file: it begins with neither a point nor a slash. -/
def Import.isExternal (i : Import) : Bool :=
  !(i.source.toList.head? == some '.' || i.source.toList.head? == some '/')

/-- What an export declares. -/
inductive ExportKind where
  | function
  | classDecl
  | interface
  | variable
  | typeDecl
  deriving DecidableEq, Repr

/-- One exported name. -/
structure Export where
  name : String
  kind : ExportKind
  isDefault : Bool
  deriving DecidableEq, Repr

/-- A function with the names of its parameters. -/
structure FunctionFact where
  name : String
  params : List String
  isAsync : Bool
  isExported : Bool
  deriving DecidableEq, Repr

/-- The name with its parameters in parentheses. -/
def FunctionFact.signature (f : FunctionFact) : String :=
  f.name ++ "(" ++ ", ".intercalate f.params ++ ")"

/-- A class with the names of its methods, the constructor left out. -/
structure ClassFact where
  name : String
  methods : List String
  isExported : Bool
  deriving DecidableEq, Repr

/-- An interface with the names of its properties. -/
structure InterfaceFact where
  name : String
  properties : List String
  isExported : Bool
  deriving DecidableEq, Repr

/-- The facts about one source file. -/
structure SourceFacts where
  imports : List Import := []
  exports : List Export := []
  functions : List FunctionFact := []
  classes : List ClassFact := []
  interfaces : List InterfaceFact := []
  purpose : String := ""
  deriving DecidableEq, Repr

namespace SourceFacts

/-- The functions that the file exports. -/
def exportedFunctions (s : SourceFacts) : List FunctionFact :=
  s.functions.filter (·.isExported)

/-- Nothing was found in the file. -/
def isEmpty (s : SourceFacts) : Bool :=
  s.imports.isEmpty && s.exports.isEmpty && s.functions.isEmpty && s.classes.isEmpty
    && s.interfaces.isEmpty

end SourceFacts

end DirectoryNotes
