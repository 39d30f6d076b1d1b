import DirectoryNotes.Proofs.Source.ExportHeads

/-!
# Functions that are read back

A module that consists of functions, one in each line, is read without a loss, whatever their names
and parameters are: a declared function and a name that is bound to an arrow function, each of them
exported or not and asynchronous or not.

* `Declaration`: a function and its line;
* `takes_functionDeclaration`, `takes_arrowFunction`, `takes_exportedLine`: how much of a line
  the patterns take;
* `analyze?_functions`: what is found in the whole module.
-/

namespace DirectoryNotes.Source

open Pattern
open Text (isBlank join pieces firstWord?)

/-! ## Words that may be missing -/

/-- A text, if it is there. -/
def textIf (there : Bool) (text : String) : String := if there then text else ""

/-- The group of a word that may be missing. -/
def groupIf (there : Bool) (n : Nat) (text : String) : Groups :=
  if there then [(n, text.toList)] else []

variable {rest : List Char} {word text : String} {there : Bool} {n : Nat}

/-- The word is taken if it is there; what follows begins with no blank, and not with the word. -/
lemma takes_maybeGroup (htext : text.toList = word.toList ++ [' '])
    (hblank : rest.head?.any isBlank = false) (hfails : (literal word ++ gap).Fails rest) :
    (maybe (.group n (literal word ++ gap))).Takes (textIf there text).toList rest
      (groupIf there n text) := by
  cases there with
  | false => exact (hfails.group n).maybe
  | true =>
    have hword := ((takesOnly_literal word).append (takesOnly_gap hblank)).takes.group n
    rw [← htext] at hword
    exact hword.maybe

/-- A pattern that fails at a text and at what follows it also fails if the text may be missing. -/
lemma fails_textIf {p : Pattern} {known : String} (rest : List Char)
    (hthere : p.mayMatch text.toList (fun _ => true) = false)
    (hknown : p.mayMatch known.toList (fun _ => true) = false) :
    p.Fails ((textIf there text).toList ++ (known.toList ++ rest)) := by
  cases there with
  | false => exact fails_of_mayMatch hknown rest
  | true => exact fails_of_mayMatch hthere _

/-! ## Declarations -/

/-- A function in the usual layout. -/
structure Declaration where
  isExported : Bool
  isAsync : Bool
  /-- It is an arrow function that is bound to the name. -/
  isArrow : Bool
  name : Identifier
  params : List (Item ')')

namespace Declaration

variable (d : Declaration)

/-- The parameters, without the parentheses around them. -/
def paramList : String := join ", " (d.params.map (·.text))

/-- The line of a declaration. -/
def print : String :=
  textIf d.isExported "export " ++
    if d.isArrow then
      "const " ++ d.name.text ++ " = " ++ textIf d.isAsync "async " ++ "(" ++ d.paramList
        ++ ") => 0;"
    else
      textIf d.isAsync "async " ++ "function " ++ d.name.text ++ "(" ++ d.paramList
        ++ ") \x7b\x7d"

/-- The function that a declaration makes: a parameter counts by its first word, and the parameters
of an arrow function do not count. -/
def fact : FunctionFact where
  name := d.name.text
  params :=
    if d.isArrow then []
    else d.params.map fun param => .ofList (param.text.toList.takeWhile (!isBlank ·))
  isAsync := d.isAsync
  isExported := d.isExported

/-- The export that an exported declaration makes. -/
def exportFact : Export where
  name := d.name.text
  kind := if d.isArrow then .variable else .function
  isDefault := false

end Declaration

/-! ## What the patterns take -/

variable (i : Identifier) (isExported isAsync : Bool) {inner : List Char} (rest : List Char)

/-- Of the blanks around the star the first take the space, and there is no star. -/
lemma takes_functionDeclaration (hinner : ')' ∉ inner) :
    functionDeclaration.Takes ((textIf isExported "export ").toList
      ++ (textIf isAsync "async ").toList ++ "function".toList ++ [' '] ++ i.text.toList ++ ['(']
      ++ inner ++ [')']) rest
      ((4, inner) :: (3, i.text.toList) :: (groupIf isAsync 2 "async "
        ++ groupIf isExported 1 "export ")) := by
  let list := i.text.toList ++ (['('] ++ (inner ++ ([')'] ++ rest)))
  have hexport : (maybe (.group 1 (literal "export" ++ gap))).Takes
      (textIf isExported "export ").toList
      ((textIf isAsync "async ").toList ++ ("function".toList ++ ([' '] ++ list)))
      (groupIf isExported 1 "export ") :=
    takes_maybeGroup rfl (by cases isAsync <;> rfl) (fails_textIf _ (by decide) (by decide))
  have hdefault : (literal "default" ++ gap).Fails
      ((textIf isAsync "async ").toList ++ ("function".toList ++ ([' '] ++ list))) :=
    fails_textIf _ (by decide) (by decide)
  have hasync : (maybe (.group 2 (literal "async" ++ gap))).Takes
      (textIf isAsync "async ").toList ("function".toList ++ ([' '] ++ list))
      (groupIf isAsync 2 "async ") :=
    takes_maybeGroup rfl rfl (fails_of_mayMatch (by decide) _)
  have hblank : list.head?.any isBlank = false := (i.isGap_space _).ends
  have htypes := @fails_of_mayMatch
    (char '<' ++ .run (fun c => c != '>' && c != '(') ++ char '>') "(".toList (by decide)
  have hname := (((((hexport.leave hdefault.maybe).append hasync).pass
    (takesOnly_literal "function")).pass (takesOnly_space hblank)).leave
      (fails_char i '*' (by decide) _).maybe).leave (takesOnly_blanks hblank).takes
  have hlist := ((hname.append ((takesOnly_name i rfl).takes.group 3)).leave
    (takesOnly_blanks rfl).takes).leave (htypes _).maybe
  exact (((hlist.leave (takesOnly_blanks rfl).takes).pass (takesOnly_char '(')).append
    ((takesOnly_run (all_except hinner) rfl).takes.group 4)).pass (takesOnly_char ')')

/-- No type stands after the name, and none before the arrow. -/
lemma takes_arrowFunction (hinner : ')' ∉ inner) :
    arrowFunction.Takes ((textIf isExported "export ").toList ++ "const".toList ++ [' ']
      ++ i.text.toList ++ [' '] ++ ['='] ++ [' '] ++ (textIf isAsync "async ").toList
      ++ (['('] ++ inner ++ [')']) ++ [' '] ++ "=>".toList) rest
      (groupIf isAsync 3 "async " ++ (2, i.text.toList) :: groupIf isExported 1 "export ") := by
  let list := (['('] ++ inner ++ [')']) ++ ([' '] ++ ("=>".toList ++ rest))
  let value := (textIf isAsync "async ").toList ++ list
  let bound := i.text.toList ++ ([' '] ++ (['='] ++ ([' '] ++ value)))
  have hexport : (maybe (.group 1 (literal "export" ++ gap))).Takes
      (textIf isExported "export ").toList ("const".toList ++ ([' '] ++ bound))
      (groupIf isExported 1 "export ") :=
    takes_maybeGroup rfl rfl (fails_of_mayMatch (by decide) _)
  have hword : (oneOf ["const", "let", "var"]).Takes "const".toList ([' '] ++ bound) [] :=
    (takesOnly_literal "const").takes.left _
  have hname := ((hexport.append hword).pass (i.isGap_space _).takesOnly).append
    ((takesOnly_name i rfl).takes.group 2)
  have htype := @fails_of_mayMatch (char ':' ++ typeText) "=".toList (by decide)
  have hblank : value.head?.any isBlank = false := by cases isAsync <;> rfl
  have hbound := (((hname.pass (takesOnly_space rfl)).leave (htype _).maybe).pass
    (takesOnly_char '=')).pass (takesOnly_space hblank)
  have hasync : (maybe (.group 3 (literal "async" ++ gap))).Takes
      (textIf isAsync "async ").toList list (groupIf isAsync 3 "async ") :=
    takes_maybeGroup rfl rfl (@fails_of_mayMatch _ "(".toList (by decide) _)
  have hlist : (Pattern.choice (char '(' ++ .run (except ')') ++ char ')') name).Takes
      (['('] ++ inner ++ [')']) ([' '] ++ ("=>".toList ++ rest)) [] :=
    (((takesOnly_char '(').append (takesOnly_run (all_except hinner) rfl)).append
      (takesOnly_char ')')).takes.left _
  have hresult := @fails_of_mayMatch
    (char ':' ++ .repeated (space ++ char '\n') ++ typeText) "=>".toList (by decide)
  exact ((((hbound.append hasync).append hlist).pass (takesOnly_space rfl)).leave
    (hresult _).maybe).pass (takesOnly_literal "=>")

/-- No star comes after the word before a name does. -/
lemma takes_functionWord : declaringWord.Takes "function".toList
    ([' '] ++ (i.text.toList ++ rest)) [] :=
  takes_functionWord_gap (i.isGap_space rest)
    (head?_any_of_begins i.begins
      (fun _ hc => beq_false_of_ne fun h => absurd (h ▸ hc) (by decide)) rest)

/-- An exported line up to its name, with one space for each gap. -/
lemma takes_exportedLine {keyword : String} (hmem : keyword ∈ ["function", "const"])
    (hkeyword : declaringWord.Takes keyword.toList ([' '] ++ (i.text.toList ++ rest)) [])
    (hrest : rest.head?.any isNameChar = false) :
    exportDeclaration.Takes ("export".toList ++ [' '] ++ (textIf isAsync "async ").toList
      ++ keyword.toList ++ [' '] ++ i.text.toList) rest
      [(3, i.text.toList), (2, keyword.toList)] := by
  have hwords : ∀ word ∈ ["function", "const"],
      word ∈ ["function", "abstract", "class", "interface", "const", "let", "var"] ∧
        word.toList.head?.any isBlank = false ∧ word.toList ≠ [] := by decide
  obtain ⟨hword, hblank, hne⟩ := hwords keyword hmem
  have hhead : ∀ more, (keyword.toList ++ more).head?.any isBlank = false := fun more => by
    rwa [List.head?_append_of_ne_nil _ hne]
  have hasync : IsLead "async" (textIf isAsync "async ").toList
      (keyword.toList ++ ([' '] ++ (i.text.toList ++ rest))) := by
    cases isAsync with
    | false => exact .inl rfl
    | true => exact .inr ⟨[' '], rfl, by decide, by decide, hhead _⟩
  have hopening : IsGap [' '] ((textIf isAsync "async ").toList
      ++ (keyword.toList ++ ([' '] ++ (i.text.toList ++ rest)))) := by
    refine ⟨by decide, by decide, ?_⟩
    cases isAsync with
    | false => exact hhead _
    | true => rfl
  have hdefault := hasync.fails (p := literal "default" ++ gap) (by decide)
    (fails_beforeWord hword _ (by decide))
  have hline : exportDeclaration.Takes ("export".toList ++ [' '] ++ [] ++ []
      ++ (textIf isAsync "async ").toList ++ keyword.toList ++ [' '] ++ i.text.toList) rest
      [(3, i.text.toList), (2, keyword.toList)] :=
    takes_exportDeclaration hopening (hdefault.group 1).maybe (.inl rfl) hasync hkeyword
      (fun other hother => fails_beforeWord hword other (List.mem_cons_of_mem _ hother))
      (i.isGap_space rest) (i.isName hrest)
  simpa only [List.append_nil] using hline

/-! ## One line -/

variable (start stop : Cursor) (name list : List Char)

lemma groups_function :
    let m : Match := ⟨start, stop,
      (4, list) :: (3, name) :: (groupIf isAsync 2 "async " ++ groupIf isExported 1 "export ")⟩
    m.group 4 = .ofList list ∧ m.group 3 = .ofList name ∧ m.has 2 = isAsync ∧
      m.has 1 = isExported := by
  cases isExported <;> cases isAsync <;> exact ⟨rfl, rfl, rfl, rfl⟩

lemma groups_arrow :
    let m : Match := ⟨start, stop,
      groupIf isAsync 3 "async " ++ (2, name) :: groupIf isExported 1 "export "⟩
    m.group 2 = .ofList name ∧ m.has 3 = isAsync ∧ m.has 1 = isExported := by
  cases isExported <;> cases isAsync <;> exact ⟨rfl, rfl, rfl⟩

lemma groups_export (keyword : String) :
    let m : Match := ⟨start, stop, [(3, name), (2, keyword.toList)]⟩
    m.group 3 = .ofList name ∧ m.group 2 = keyword ∧ m.has 1 = false :=
  ⟨rfl, String.ofList_toList, rfl⟩

/-- What a line begins with, up to the name. -/
def openingOf (isExported isAsync isArrow : Bool) : List Char :=
  (textIf isExported "export ").toList ++
    if isArrow then "const ".toList else (textIf isAsync "async ").toList ++ "function ".toList

/-- The first words of the parameters. -/
lemma filterMap_firstWord_items (items : List (Item ')')) :
    (Text.split ',' (join ", " (items.map (·.text)))).filterMap firstWord? =
      items.map fun item => .ofList (item.text.toList.takeWhile (!isBlank ·)) := by
  have hread : (pieces ',' ([] ++ (join ", " (items.map (·.text))).toList ++ [])).filterMap
      (firstWord? ∘ String.ofList) =
        (items.map (·.text)).map fun text => .ofList (text.toList.takeWhile (!isBlank ·)) := by
    refine Text.filterMap_pieces_join rfl rfl ?_ ?_
    · intro blank hblank
      rw [Function.comp_apply, Text.firstWord?_eq_none hblank]
    · intro text htext
      obtain ⟨item, -, rfl⟩ := List.mem_map.mp htext
      refine ⟨item.noComma, fun before after hbefore hafter => ?_⟩
      rw [Function.comp_apply,
        Text.firstWord?_blanks hbefore hafter item.trimBy_toList item.toList_ne_nil]
  rw [List.nil_append, List.append_nil] at hread
  rw [Text.split, List.filterMap_map, hread, List.map_map]
  rfl

namespace Declaration

variable (d : Declaration)

lemma toList_print_function (h : d.isArrow = false) : d.print.toList =
    ((textIf d.isExported "export ").toList ++ (textIf d.isAsync "async ").toList
      ++ "function".toList ++ [' '] ++ d.name.text.toList ++ ['('] ++ d.paramList.toList ++ [')'])
      ++ " \x7b\x7d".toList := by
  simp only [print, h, Bool.false_eq_true, if_false, String.toList_append, List.append_assoc]
  rfl

lemma toList_print_arrow (h : d.isArrow = true) : d.print.toList =
    ((textIf d.isExported "export ").toList ++ "const".toList ++ [' '] ++ d.name.text.toList
      ++ [' '] ++ ['='] ++ [' '] ++ (textIf d.isAsync "async ").toList
      ++ (['('] ++ d.paramList.toList ++ [')']) ++ [' '] ++ "=>".toList) ++ " 0;".toList := by
  simp only [print, h, if_true, String.toList_append, List.append_assoc]
  rfl

lemma isPrefix_print : openingOf d.isExported d.isAsync d.isArrow <+: d.print.toList := by
  cases h : d.isArrow with
  | false =>
    rw [d.toList_print_function h]
    simp only [openingOf, Bool.false_eq_true, if_false, List.append_assoc]
    exact ⟨_, by simp only [List.append_assoc]; rfl⟩
  | true =>
    rw [d.toList_print_arrow h]
    simp only [openingOf, if_true, List.append_assoc]
    exact ⟨_, by simp only [List.append_assoc]; rfl⟩

lemma newline_notMem_paramList : '\n' ∉ d.paramList.toList :=
  Item.notMem_join d.params (by decide) fun param _ => param.newline

lemma newline_notMem_textIf {there : Bool} {text : String} (h : '\n' ∉ text.toList) :
    '\n' ∉ (textIf there text).toList := by
  cases there with
  | false => exact List.not_mem_nil
  | true => exact h

lemma isRow_print : IsRow d.print.toList where
  begins := by
    obtain ⟨more, hmore⟩ := d.isPrefix_print
    rw [← hmore]
    cases d.isExported <;> cases d.isArrow <;> cases d.isAsync <;> rfl
  newline := by
    have hexport : '\n' ∉ (textIf d.isExported "export ").toList :=
      newline_notMem_textIf (by decide)
    have hasync : '\n' ∉ (textIf d.isAsync "async ").toList := newline_notMem_textIf (by decide)
    have hname := d.name.newline_notMem
    have hparams := d.newline_notMem_paramList
    cases h : d.isArrow with
    | false =>
      rw [d.toList_print_function h]
      simp [hexport, hasync, hname, hparams]
    | true =>
      rw [d.toList_print_arrow h]
      simp [hexport, hasync, hname, hparams]

lemma paren_notMem_paramList : ')' ∉ d.paramList.toList :=
  Item.notMem_join d.params (by decide) fun param _ => param.noMark

lemma reads_declared : functionDeclaration.Reads
    (fun m => (⟨m.group 3, (Text.split ',' (m.group 4)).filterMap firstWord?, m.has 2, m.has 1⟩ :
      FunctionFact)) d.print.toList (if !d.isArrow then some d.fact else none) := by
  cases h : d.isArrow with
  | false =>
    rw [d.toList_print_function h]
    refine Takes.reads (fun rest => takes_functionDeclaration d.name d.isExported d.isAsync _
      d.paren_notMem_paramList) fun start stop => ?_
    obtain ⟨hparams, hname, hasync, hexport⟩ := groups_function d.isExported d.isAsync start stop
      d.name.text.toList d.paramList.toList
    rw [hparams, hname, hasync, hexport, String.ofList_toList, String.ofList_toList, paramList,
      filterMap_firstWord_items]
    simp [fact, h]
  | true =>
    have hfails : ∀ isExported isAsync, functionDeclaration.mayMatch
        (openingOf isExported isAsync true) (fun _ => true) = false := by decide
    exact reads_none _ d.isPrefix_print (by rw [h]; exact hfails _ _)

lemma reads_arrow : arrowFunction.Reads
    (fun m => (⟨m.group 2, [], m.has 3, m.has 1⟩ : FunctionFact)) d.print.toList
      (if d.isArrow then some d.fact else none) := by
  cases h : d.isArrow with
  | false =>
    have hfails : ∀ isExported isAsync, arrowFunction.mayMatch
        (openingOf isExported isAsync false) (fun _ => true) = false := by decide
    exact reads_none _ d.isPrefix_print (by rw [h]; exact hfails _ _)
  | true =>
    rw [d.toList_print_arrow h]
    refine Takes.reads (fun rest => takes_arrowFunction d.name d.isExported d.isAsync _
      d.paren_notMem_paramList) fun start stop => ?_
    obtain ⟨hname, hasync, hexport⟩ := groups_arrow d.isExported d.isAsync start stop
      d.name.text.toList
    rw [hname, hasync, hexport, String.ofList_toList]
    simp [fact, h]

lemma reads_export : exportDeclaration.Reads
    (fun m => (⟨m.group 3, .ofKeyword (m.group 2), m.has 1⟩ : Export)) d.print.toList
      (if d.isExported then some d.exportFact else none) := by
  have hkinds : ExportKind.ofKeyword "function" = .function ∧
      ExportKind.ofKeyword "const" = .variable := by decide
  cases hexport : d.isExported with
  | false =>
    have hfails : ∀ isAsync isArrow, exportDeclaration.mayMatch
        (openingOf false isAsync isArrow) (fun _ => true) = false := by decide
    exact reads_none _ d.isPrefix_print (by rw [hexport]; exact hfails _ _)
  | true =>
    cases h : d.isArrow with
    | false =>
      have htext : d.print.toList = ("export".toList ++ [' '] ++ (textIf d.isAsync "async ").toList
          ++ "function".toList ++ [' '] ++ d.name.text.toList) ++ (['('] ++ d.paramList.toList
            ++ ") \x7b\x7d".toList) := by
        rw [d.toList_print_function h, hexport]
        simp only [List.append_assoc]
        rfl
      rw [htext]
      refine Takes.reads (fun rest => takes_exportedLine d.name d.isAsync _ (by decide)
        (takes_functionWord d.name _) rfl) fun start stop => ?_
      obtain ⟨hname, hword, hdefault⟩ := groups_export start stop d.name.text.toList "function"
      rw [hname, hword, hdefault, String.ofList_toList, hkinds.1]
      simp [exportFact, h]
    | true =>
      have htext : d.print.toList = ("export".toList ++ [' '] ++ (textIf false "async ").toList
          ++ "const".toList ++ [' '] ++ d.name.text.toList) ++ (" = ".toList
            ++ (textIf d.isAsync "async ").toList ++ ['('] ++ d.paramList.toList
            ++ ") => 0;".toList) := by
        rw [d.toList_print_arrow h, hexport]
        simp only [List.append_assoc]
        rfl
      rw [htext]
      refine Takes.reads (fun rest => takes_exportedLine d.name false _ (by decide)
        (takes_otherWord (by decide)) rfl) fun start stop => ?_
      obtain ⟨hname, hword, hdefault⟩ := groups_export start stop d.name.text.toList "const"
      rw [hname, hword, hdefault, String.ofList_toList, hkinds.2]
      simp [exportFact, h]

end Declaration

/-! ## The whole module -/

variable {p : Path} {ending : String}

/-- What is found in some of the lines, and in the others not. -/
lemma filterMap_ite {β : Type} (finds : Declaration → Bool) (found : Declaration → β)
    (declarations : List Declaration) :
    declarations.filterMap (fun d => if finds d then some (found d) else none) =
      (declarations.filter finds).map found := by
  induction declarations with
  | nil => rfl
  | cons d rest ih => cases h : finds d <;> simp [h, ih]

/-- A module with a function in each line is read without a loss: the declared functions come first,
then the arrow functions, and the exports stand in the order of the text. Nothing else is found. -/
theorem analyze?_functions (hp : isReadable p = true) (declarations : List Declaration)
    (hending : ending = "" ∨ ending = "\n") :
    ∃ facts, analyze? p (join "\n" (declarations.map (·.print)) ++ ending) = some facts ∧
      facts.functions = (declarations.filter (!·.isArrow) ++ declarations.filter (·.isArrow)).map
        (·.fact) ∧
      facts.exports = (declarations.filter (·.isExported)).map (·.exportFact) ∧
      facts.imports = [] ∧ facts.classes = [] ∧ facts.interfaces = [] := by
  have hrows : ∀ d ∈ declarations, IsRow d.print.toList := fun d _ => d.isRow_print
  have hnone : ∀ q : Pattern, (∀ isExported isAsync isArrow, q.mayMatch
      (openingOf isExported isAsync isArrow) (fun _ => true) = false) →
        q.inLines (join "\n" (declarations.map (·.print)) ++ ending).toList = [] := fun q hq =>
    inLines_rows_eq_nil hrows (fun d _ => reads_none _ d.isPrefix_print (hq _ _ _)) hending
  have hdeclared := map_inLines_rows hrows (fun d _ => d.reads_declared) hending
  have harrow := map_inLines_rows hrows (fun d _ => d.reads_arrow) hending
  have hexport := map_inLines_rows hrows (fun d _ => d.reads_export) hending
  generalize (join "\n" (declarations.map (·.print)) ++ ending) = content at *
  rw [filterMap_ite] at hdeclared harrow hexport
  -- the other patterns fail before the name, whatever words stand there
  refine ⟨_, if_pos hp, ?_, ?_, ?_, ?_, ?_⟩
  · show functions content.toList = _
    rw [functions, declaredFunctions, arrowFunctions, hdeclared, harrow, List.map_append]
  · show exports content.toList _ = _
    rw [exports, declaredExports, hexport, hnone exportDefaultName (by decide)]
    rfl
  · show imports content.toList = []
    rw [imports, wildcardImports, defaultImports, namedImports,
      hnone importWildcard (by decide), hnone importDefault (by decide),
      hnone importNamed (by decide)]
    rfl
  · show classes content.toList = []
    rw [classes, hnone classDeclaration (by decide)]
    rfl
  · show interfaces content.toList = []
    rw [interfaces, hnone interfaceDeclaration (by decide)]
    rfl

/-- Keywords as names, a parameter with a type and one with a default, and none at all. -/
theorem analyze?_functions_keywords : isReadable ⟨"src/app.ts"⟩ = true ∧
    ∃ facts, analyze? ⟨"src/app.ts"⟩
        ("const async = async (x = \x7b\x7d) => 0;\n"
          ++ "export async function function(a: T, ...b) \x7b\x7d\n"
          ++ "function $f() \x7b\x7d\nexport const export = (y) => 0;") = some facts ∧
      facts.functions = [⟨"function", ["a:", "...b"], true, true⟩, ⟨"$f", [], false, false⟩,
        ⟨"async", [], true, false⟩, ⟨"export", [], false, true⟩] ∧
      facts.exports = [⟨"function", .function, false⟩, ⟨"export", .variable, false⟩] ∧
      facts.imports = [] ∧ facts.classes = [] ∧ facts.interfaces = [] := by
  refine ⟨by decide, ?_⟩
  have h := @analyze?_functions ⟨"src/app.ts"⟩ "" (by decide)
    [⟨false, true, true, .mk "async", [.mk "x = \x7b\x7d"]⟩,
      ⟨true, true, false, .mk "function", [.mk "a: T", .mk "...b"]⟩,
      ⟨false, false, false, .mk "$f", []⟩, ⟨true, false, true, .mk "export", [.mk "y"]⟩] (.inl rfl)
  exact h

end DirectoryNotes.Source
