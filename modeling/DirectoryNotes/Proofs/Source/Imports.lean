import DirectoryNotes.Proofs.Source.Parts

/-!
# Imports that are read back

A module that consists of imports, one in each line, is read without a loss: whatever the names, the
modules and the lists between braces are, each pattern finds its own statements and no others.

* `ImportStatement`: an import and its line, in one of three forms;
* `takes_importWildcard`, `takes_importDefault`, `takes_importNamed`: each pattern takes a line of
  its own form, up to the closing quote;
* `fails_importWildcard`, `fails_importNamed`: two patterns do not match a default import, whatever
  its name is;
* `analyze?_imports`: what is found in the whole module.
-/

namespace DirectoryNotes.Source

open Pattern
open Text (isBlank trim trimBy join pieces)

variable {rest : List Char}

/-! ## Statements -/

/-- What an import binds. -/
inductive Binding where
  /-- One name for the whole module. -/
  | wildcard (name : Identifier)
  /-- One name for the default export. -/
  | default (name : Identifier)
  /-- The names between braces. -/
  | named (specifiers : List (Item '\x7d'))

/-- What stands between the word that imports and the clause that names the module. -/
def Binding.print : Binding → String
  | wildcard name => "* as " ++ name.text
  | default name => name.text
  | named specifiers => "\x7b " ++ join ", " (specifiers.map (·.text)) ++ " \x7d"

/-- An import in the usual layout. -/
structure ImportStatement where
  binding : Binding
  source : ModuleName

namespace ImportStatement

variable (s : ImportStatement)

/-- The line of a statement. -/
def print : String := "import " ++ s.binding.print ++ " from '" ++ s.source.text ++ "';"

/-- The import of a whole module. -/
def wildcard? : Option Import :=
  match s.binding with
  | .wildcard name => some ⟨s.source.text, [name.text], .wildcard⟩
  | _ => none

/-- The import of a default export. -/
def default? : Option Import :=
  match s.binding with
  | .default name => some ⟨s.source.text, [name.text], .default⟩
  | _ => none

/-- The import of names, each of them once. -/
def named? : Option Import :=
  match s.binding with
  | .named specifiers => some ⟨s.source.text, (specifiers.map (·.text)).eraseDups, .named⟩
  | _ => none

end ImportStatement

/-! ## Lines of their own form -/

variable (i : Identifier) (source : ModuleName) (rest : List Char)

lemma takes_importWildcard :
    importWildcard.Takes ("import * as ".toList ++ i.text.toList ++ [' ']
      ++ ("from '".toList ++ source.text.toList ++ ['\x27'])) rest
      [(2, source.text.toList), (1, i.text.toList)] := by
  have hopen : (literal "import" ++ gap ++ char '*' ++ gap ++ literal "as" ++ gap).TakesOnly
      "import * as ".toList (i.text.toList ++ ([' ']
        ++ ("from '".toList ++ source.text.toList ++ ['\x27'] ++ rest))) :=
    (((((takesOnly_literal "import").append (takesOnly_gap rfl)).append
      (takesOnly_char '*')).append (takesOnly_gap rfl)).append (takesOnly_literal "as")).append
        (i.isGap_space _).takesOnly
  have hname := hopen.takes.append ((takesOnly_name i rfl).takes.group 1)
  exact (hname.pass (takesOnly_gap rfl)).append (takes_fromModule source 2)

/-- What may stand beside a default import before its module. -/
lemma fails_besideDefault : (blanks ++ char ',' ++ blanks
    ++ .choice (braced (.run (except '}')))
      (char '*' ++ gap ++ literal "as" ++ gap ++ atLeastOne isNameChar)).Fails
        (" from '".toList ++ rest) :=
  fails_of_mayMatch (by decide) rest

lemma takes_importDefault :
    importDefault.Takes ("import ".toList ++ i.text.toList ++ [' ']
      ++ ("from '".toList ++ source.text.toList ++ ['\x27'])) rest
      [(2, source.text.toList), (1, i.text.toList)] := by
  have hname := (takesOnly_word "import" i ([' ']
    ++ ("from '".toList ++ source.text.toList ++ ['\x27'] ++ rest))).takes.append
      ((takesOnly_name i rfl).takes.group 1)
  exact ((hname.leave (fails_besideDefault _).maybe).pass (takesOnly_gap rfl)).append
    (takes_fromModule source 2)

lemma takes_importNamed {inner : List Char} (hinner : '}' ∉ inner) :
    importNamed.Takes ("import ".toList ++ ("\x7b".toList ++ inner ++ ['\x7d']) ++ [' ']
      ++ ("from '".toList ++ source.text.toList ++ ['\x27'])) rest
      [(2, source.text.toList), (1, inner)] := by
  have hlist : (braced (.group 1 (.run (except '}')))).Takes ("\x7b".toList ++ inner ++ ['\x7d'])
      ([' '] ++ ("from '".toList ++ source.text.toList ++ ['\x27'] ++ rest)) [(1, inner)] :=
    ((takesOnly_char '{').takes.append
      ((takesOnly_run (all_except hinner) rfl).takes.group 1)).pass (takesOnly_char '}')
  have hopen : (literal "import" ++ gap).TakesOnly "import ".toList ("\x7b".toList ++ inner
      ++ ['\x7d'] ++ ([' '] ++ ("from '".toList ++ source.text.toList ++ ['\x27'] ++ rest))) :=
    (takesOnly_literal "import").append (takesOnly_gap rfl)
  have htype := @fails_of_mayMatch (literal "type" ++ gap) "\x7b".toList (by decide)
  have hname := @fails_of_mayMatch (name ++ blanks ++ char ',' ++ blanks) "\x7b".toList (by decide)
  exact ((((hopen.takes.leave (htype _).maybe).leave (hname _).maybe).append hlist).pass
    (takesOnly_space rfl)).append (takes_fromModule source 2)

/-! ## Lines of another form -/

lemma fails_importWildcard :
    importWildcard.Fails ("import ".toList ++ (i.text.toList ++ rest)) := by
  have hstar := (takesOnly_word "import" i rest).fails_append
    (fails_char i '*' (by decide) rest)
  exact (((((hstar.append _).append _).append _).append _).append _).append _

/-- At a name, there are neither braces nor a default import before them. -/
lemma fails_namesAt :
    (maybe (name ++ blanks ++ char ',' ++ blanks) ++ braced (.group 1 (.run (except '}')))).Fails
      (i.text.toList ++ (" from '".toList ++ rest)) := by
  have hcomma : (blanks ++ char ',').Fails (" from '".toList ++ rest) :=
    fails_of_mayMatch (by decide) rest
  have hname := (takesOnly_name i rfl).fails_append hcomma
  have hbrace := fails_char i '{' (by decide) (" from '".toList ++ rest)
  exact Fails.maybe_append ((hname.append _).append _) ((hbrace.append _).append _)

lemma fails_importNamed :
    importNamed.Fails ("import ".toList ++ (i.text.toList ++ (" from '".toList ++ rest))) := by
  -- the name may be the word that an import of types has there
  have hword : ((literal "type" ++ gap) ++ (maybe (name ++ blanks ++ char ',' ++ blanks)
      ++ braced (.group 1 (.run (except '}'))))).Fails
        (i.text.toList ++ (" from '".toList ++ rest)) := by
    by_cases htype : i.text.toList = "type".toList
    · have htaken : (literal "type" ++ gap).TakesOnly "type ".toList ("from '".toList ++ rest) :=
        (takesOnly_literal "type").append (takesOnly_gap rfl)
      rw [htype]
      exact htaken.fails_append (fails_of_mayMatch (by decide) rest)
    · exact (fails_otherWord (by decide) (fun c hc => (i.isNameChar_of_mem hc).2) htype).append _
  have hnames := (takesOnly_word "import" i _).fails_append
    (Fails.maybe_append hword (fails_namesAt i rest))
  exact (hnames.append blanks).append (fromModule 2)

/-! ## One line -/

/-- The names between braces, each once. -/
lemma specifiers_items (items : List (Item '\x7d')) :
    specifiers (.ofList ([' '] ++ (join ", " (items.map (·.text))).toList ++ [' '])) =
      (items.map (·.text)).eraseDups := by
  have hread : (pieces ',' ([' '] ++ (join ", " (items.map (·.text))).toList ++ [' '])).filterMap
      ((Option.guard fun text => decide (text ≠ "")) ∘ trim ∘ String.ofList) =
        (items.map (·.text)).map id := by
    refine Text.filterMap_pieces_join (by decide) (by decide) ?_ ?_
    · intro blank hblank
      have htrim : trim (.ofList blank) = "" := by
        rw [trim, String.toList_ofList, Text.trimBy_eq_nil hblank]
      rw [Function.comp_apply, Function.comp_apply, htrim]
      rfl
    · intro text htext
      obtain ⟨item, -, rfl⟩ := List.mem_map.mp htext
      refine ⟨item.noComma, fun before after hbefore hafter => ?_⟩
      have htrim : trim (.ofList (before ++ item.text.toList ++ after)) = item.text := by
        rw [trim, String.toList_ofList, Text.trimBy_blanks hbefore hafter, item.trimBy_toList,
          String.ofList_toList]
      rw [Function.comp_apply, Function.comp_apply, htrim]
      exact Option.guard_pos (decide_eq_true item.nonempty)
  rw [specifiers, Text.firstOccurrences_eq_eraseDups, Text.split, List.map_map,
    ← List.filterMap_eq_filter, List.filterMap_map, String.toList_ofList, hread, List.map_id]

lemma groups_import (start stop : Cursor) (first second : List Char) :
    let m : Match := ⟨start, stop, [(2, second), (1, first)]⟩
    m.group 1 = .ofList first ∧ m.group 2 = .ofList second :=
  ⟨rfl, rfl⟩

namespace ImportStatement

variable (s : ImportStatement)

lemma toList_print_wildcard : (print ⟨.wildcard i, source⟩).toList =
    ("import * as ".toList ++ i.text.toList ++ [' ']
      ++ ("from '".toList ++ source.text.toList ++ ['\x27'])) ++ [';'] := by
  simp only [print, Binding.print, String.toList_append, List.append_assoc]
  rfl

lemma toList_print_default : (print ⟨.default i, source⟩).toList =
    ("import ".toList ++ i.text.toList ++ [' ']
      ++ ("from '".toList ++ source.text.toList ++ ['\x27'])) ++ [';'] := by
  simp only [print, Binding.print, String.toList_append, List.append_assoc]
  rfl

lemma toList_print_named (items : List (Item '\x7d')) : (print ⟨.named items, source⟩).toList =
    ("import ".toList ++ ("\x7b".toList
      ++ ([' '] ++ (join ", " (items.map (·.text))).toList ++ [' ']) ++ ['\x7d']) ++ [' ']
      ++ ("from '".toList ++ source.text.toList ++ ['\x27'])) ++ [';'] := by
  simp only [print, Binding.print, String.toList_append, List.append_assoc]
  rfl

/-! What a line begins with is often enough for a pattern to fail. -/

lemma isPrefix_print : "import ".toList <+: s.print.toList := by
  simp only [print, String.toList_append, List.append_assoc]
  exact ⟨_, rfl⟩

lemma isPrefix_print_wildcard : "import * ".toList <+: (print ⟨.wildcard i, source⟩).toList := by
  simp only [print, Binding.print, String.toList_append, List.append_assoc]
  exact ⟨_, rfl⟩

lemma isPrefix_print_named (items : List (Item '\x7d')) :
    "import \x7b".toList <+: (print ⟨.named items, source⟩).toList := by
  simp only [print, Binding.print, String.toList_append, List.append_assoc]
  exact ⟨_, rfl⟩

lemma newline_notMem_binding (b : Binding) : '\n' ∉ b.print.toList := by
  have hmarks : '\n' ∉ "* as ".toList ∧ '\n' ∉ "\x7b ".toList ∧ '\n' ∉ " \x7d".toList ∧
      '\n' ∉ ", ".toList := by decide
  obtain ⟨has, hopen, hclose, hsep⟩ := hmarks
  cases b with
  | wildcard name =>
    simp only [Binding.print, String.toList_append, List.mem_append, not_or]
    exact ⟨has, name.newline_notMem⟩
  | default name => exact name.newline_notMem
  | named items =>
    simp only [Binding.print, String.toList_append, List.mem_append, not_or]
    exact ⟨⟨hopen, Item.notMem_join items hsep fun i _ => i.newline⟩, hclose⟩

lemma isRow_print : IsRow s.print.toList where
  begins := by
    obtain ⟨more, hmore⟩ := s.isPrefix_print
    rw [← hmore]
    rfl
  newline := by
    have hmarks : '\n' ∉ "import ".toList ∧ '\n' ∉ " from '".toList ∧ '\n' ∉ "';".toList := by
      decide
    simp only [print, String.toList_append, List.mem_append, not_or]
    exact ⟨⟨⟨⟨hmarks.1, newline_notMem_binding _⟩, hmarks.2.1⟩, s.source.newline⟩, hmarks.2.2⟩

lemma reads_wildcard : importWildcard.Reads
    (fun m => (⟨m.group 2, [m.group 1], .wildcard⟩ : Import)) s.print.toList s.wildcard? := by
  obtain ⟨binding, source⟩ := s
  cases binding with
  | wildcard name =>
    rw [toList_print_wildcard]
    refine Takes.reads (fun rest => takes_importWildcard name source _) fun start stop => ?_
    obtain ⟨hname, hsource⟩ := groups_import start stop name.text.toList source.text.toList
    rw [hname, hsource, String.ofList_toList, String.ofList_toList]
  | default name =>
    refine Fails.reads fun rest => ?_
    rw [toList_print_default]
    simp only [List.append_assoc]
    exact fails_importWildcard name _
  | named items =>
    exact reads_none _ (isPrefix_print_named source items) (by decide)

lemma reads_default : importDefault.Reads
    (fun m => (⟨m.group 2, [m.group 1], .default⟩ : Import)) s.print.toList s.default? := by
  obtain ⟨binding, source⟩ := s
  cases binding with
  | wildcard name =>
    exact reads_none _ (isPrefix_print_wildcard name source) (by decide)
  | default name =>
    rw [toList_print_default]
    refine Takes.reads (fun rest => takes_importDefault name source _) fun start stop => ?_
    obtain ⟨hname, hsource⟩ := groups_import start stop name.text.toList source.text.toList
    rw [hname, hsource, String.ofList_toList, String.ofList_toList]
  | named items =>
    exact reads_none _ (isPrefix_print_named source items) (by decide)

lemma reads_named : importNamed.Reads
    (fun m => (⟨m.group 2, specifiers (m.group 1), .named⟩ : Import)) s.print.toList s.named? := by
  obtain ⟨binding, source⟩ := s
  cases binding with
  | wildcard name =>
    exact reads_none _ (isPrefix_print_wildcard name source) (by decide)
  | default name =>
    refine Fails.reads fun rest => ?_
    rw [toList_print_default]
    simp only [List.append_assoc]
    exact fails_importNamed name _
  | named items =>
    have hinner : '}' ∉ [' '] ++ (join ", " (items.map (·.text))).toList ++ [' '] := by
      simp [Item.notMem_join items (by decide : '}' ∉ ", ".toList) fun i _ => i.noMark]
    rw [toList_print_named]
    refine Takes.reads (fun rest => takes_importNamed source _ hinner) fun start stop => ?_
    obtain ⟨hinside, hsource⟩ := groups_import start stop _ source.text.toList
    rw [hinside, hsource, String.ofList_toList, specifiers_items]

end ImportStatement

/-! ## The whole module -/

variable {p : Path} {ending : String}

/-- A module with an import in each line is read without a loss: the imports of whole modules come
first, then those of default exports, each name from a module once, and then those of names. Nothing
else is found. -/
theorem analyze?_imports (hp : isReadable p = true) (statements : List ImportStatement)
    (hending : ending = "" ∨ ending = "\n") :
    ∃ facts, analyze? p (join "\n" (statements.map (·.print)) ++ ending) = some facts ∧
      facts.imports = statements.filterMap (·.wildcard?) ++
        (statements.filterMap (·.default?)).eraseDups ++ statements.filterMap (·.named?) ∧
      facts.exports = [] ∧ facts.functions = [] ∧ facts.classes = [] ∧ facts.interfaces = [] := by
  have hrows : ∀ s ∈ statements, IsRow s.print.toList := fun s _ => s.isRow_print
  have hnone : ∀ q : Pattern, q.mayMatch "import ".toList (fun _ => true) = false →
      q.inLines (join "\n" (statements.map (·.print)) ++ ending).toList = [] := fun q hq =>
    inLines_rows_eq_nil hrows (fun s _ => reads_none _ s.isPrefix_print hq) hending
  have hwildcard := map_inLines_rows hrows (fun s _ => s.reads_wildcard) hending
  have hdefault := map_inLines_rows hrows (fun s _ => s.reads_default) hending
  have hnamed := map_inLines_rows hrows (fun s _ => s.reads_named) hending
  generalize (join "\n" (statements.map (·.print)) ++ ending) = content at *
  have himports : imports content.toList = statements.filterMap (·.wildcard?) ++
      (statements.filterMap (·.default?)).eraseDups ++ statements.filterMap (·.named?) := by
    rw [imports, wildcardImports, defaultImports, namedImports, hwildcard, hdefault, hnamed,
      Text.firstOccurrences_eq_eraseDups]
  -- the other patterns fail at the word that imports
  refine ⟨_, if_pos hp, himports, ?_, ?_, ?_, ?_⟩
  · show exports content.toList _ = []
    rw [exports, declaredExports, hnone exportDeclaration (by decide),
      hnone exportDefaultName (by decide)]
    rfl
  · show functions content.toList = []
    rw [functions, declaredFunctions, arrowFunctions, hnone functionDeclaration (by decide),
      hnone arrowFunction (by decide)]
    rfl
  · show classes content.toList = []
    rw [classes, hnone classDeclaration (by decide)]
    rfl
  · show interfaces content.toList = []
    rw [interfaces, hnone interfaceDeclaration (by decide)]
    rfl

/-- Keywords as names, and a name that comes again. -/
theorem analyze?_imports_keywords : isReadable ⟨"src/app.ts"⟩ = true ∧
    ∃ facts, analyze? ⟨"src/app.ts"⟩
        ("import type from './from';\nimport \x7b as, x as from, as \x7d from 'b';\n"
          ++ "import * as from from 'a';\nimport type from './from';\n"
          ++ "import \x7b  \x7d from 'c';\nimport type from 'a';\n") = some facts ∧
      facts.imports = [⟨"a", ["from"], .wildcard⟩, ⟨"./from", ["type"], .default⟩,
        ⟨"a", ["type"], .default⟩, ⟨"b", ["as", "x as from"], .named⟩, ⟨"c", [], .named⟩] ∧
      facts.exports = [] ∧ facts.functions = [] ∧ facts.classes = [] ∧ facts.interfaces = [] := by
  refine ⟨by decide, ?_⟩
  have h := @analyze?_imports ⟨"src/app.ts"⟩ "\n" (by decide)
    [⟨.default (.mk "type"), .mk "./from"⟩, ⟨.named [.mk "as", .mk "x as from", .mk "as"], .mk "b"⟩,
      ⟨.wildcard (.mk "from"), .mk "a"⟩, ⟨.default (.mk "type"), .mk "./from"⟩,
      ⟨.named [], .mk "c"⟩, ⟨.default (.mk "type"), .mk "a"⟩] (.inr rfl)
  exact h

end DirectoryNotes.Source
