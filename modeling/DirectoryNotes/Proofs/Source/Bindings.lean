import DirectoryNotes.Proofs.Source.Tokens
import DirectoryNotes.Proofs.Text.Occurrences
import DirectoryNotes.Proofs.Text.Trimming
import DirectoryNotes.Record.Basic

/-!
# What imports look like

Whatever a source file holds, the imports that are found in it have a form to rely on, and each of them
becomes a dependency with a name:

* `IsModuleIn`: a module as a text names it, and `IsBoundIn`: an identifier that a text binds;
* `IsNameList`: the names that stand between braces;
* `isModuleIn_group`, `isBoundIn_group`, `exists_inner`: what a match of each pattern takes out of the
  text;
* `IsWellFormed`: an import by its kind, and `isWellFormed_of_mem_imports`;
* `name_ofImport_ne_empty`: the name of the dependency;
* `imports_wellFormed`: all of it together, for every text.
-/

namespace DirectoryNotes.Source

open Pattern
open Text (isBlank trim trimBy)

variable {q : Pattern} {taken rest text : List Char} {added : Groups} {n : Nat} {m : Match}
  {content : List Char} {i : Import}

/-! ## Modules -/

/-- The text names a module: the word `from`, a gap, and the module between quotes. There are no
quotes in it. -/
def IsModuleIn (text : List Char) (source : String) : Prop :=
  source ≠ "" ∧ (∀ c ∈ source.toList, isQuote c = false) ∧
    ∃ between opening closing, between ≠ [] ∧ between.all isBlank = true ∧
      isQuote opening = true ∧ isQuote closing = true ∧
      "from".toList ++ (between ++ opening :: (source.toList ++ [closing])) <:+: text

lemma exists_of_spans_fromModule (h : (fromModule n).Spans taken rest added) :
    ∃ source, added = [(n, source)] ∧ IsModuleIn taken (.ofList source) := by
  -- a pattern nests to the left, so its parts come from the last to the first
  obtain ⟨_, _, _, _, rfl, rfl, ⟨_, source, _, _, rfl, rfl, ⟨_, _, _, _, rfl, rfl,
    ⟨_, between, _, _, rfl, rfl, hfrom, hbetween⟩, ⟨opening, rfl, hopening⟩, rfl⟩, _, rfl, hsource⟩,
    ⟨closing, rfl, hclosing⟩, rfl⟩ := h
  obtain ⟨rfl, rfl⟩ := eq_of_spans_literal hfrom
  obtain ⟨hgap, rfl⟩ := isGap_of_spans hbetween
  obtain ⟨_, more, _, _, rfl, rfl, ⟨⟨c, rfl, hc⟩, rfl⟩, hmore, -, rfl⟩ := hsource
  refine ⟨_, rfl, by simp, ?_, between, opening, closing, hgap.nonempty, hgap.blank, hopening,
    hclosing, [], [], ?_⟩
  · rw [String.toList_ofList]
    intro d hd
    rcases List.mem_append.mp hd with hd | hd
    · rw [List.mem_singleton.mp hd]
      simpa using hc
    · simpa using List.all_eq_true.mp hmore d hd
  · simp only [String.toList_ofList, List.append_assoc, List.cons_append, List.nil_append,
      List.append_nil]

lemma IsModuleIn.mono {source : String} {part : List Char} (h : IsModuleIn part source)
    (hpart : part <:+: text) : IsModuleIn text source := by
  obtain ⟨hne, hquote, between, opening, closing, hbetween, hblank, hopening, hclosing, hclause⟩ := h
  exact ⟨hne, hquote, between, opening, closing, hbetween, hblank, hopening, hclosing,
    hclause.trans hpart⟩

/-- A match that ends with the clause for the module has the module in its group. -/
lemma isModuleIn_group (hm : m ∈ (q ++ fromModule 2).inLines text) :
    IsModuleIn text (m.group 2) := by
  obtain ⟨line, indent, _, rest, hhead, ⟨front, clause, inFront, _, rfl, hgroups, -, hclause⟩, -, -⟩ :=
    exists_of_mem_inLines hm
  obtain ⟨source, rfl, hsource⟩ := exists_of_spans_fromModule hclause
  have hgroup : m.group 2 = .ofList source := by
    rw [Match.group, Match.group?, hgroups]
    rfl
  rw [hgroup]
  refine hsource.mono ⟨line ++ indent ++ front, rest, ?_⟩
  rw [hhead.text_eq]
  simp only [List.append_assoc]

/-! ## Identifiers -/

/-- The text has a complete identifier right behind a word. -/
def IsBoundIn (text : List Char) (word ident : String) : Prop :=
  ∃ place : Place text ident, place.word = word ∧ place.IsToken

/-- What an import of a whole module begins with, up to its name. -/
def wildcardFront : Pattern :=
  literal "import" ++ gap ++ char '*' ++ gap ++ literal "as" ++ gap

/-- What a default import begins with, up to its name. -/
def bindingFront : Pattern := literal "import" ++ gap

lemma importWildcard_heads : Heads importWildcard wildcardFront 1 :=
  ((heads_name _ 1).append (by decide)).append (by decide)

lemma importDefault_heads : Heads importDefault bindingFront 1 :=
  (((heads_name _ 1).append (by decide)).append (by decide)).append (by decide)

lemma declares_wildcardFront : Declares wildcardFront ["as"] Separates :=
  (declares_oneOf (apart_append_gap _) ["as"]).append_gap

lemma declares_bindingFront : Declares bindingFront ["import"] Separates := by
  have hword : Declares (literal "import") ["import"] IsMark := by
    intro taken rest added hspans
    obtain ⟨rfl, -⟩ := eq_of_spans_literal hspans
    exact ⟨[], "import", List.mem_singleton_self _, [], rfl, isMark_of_blank rfl, rfl⟩
  exact hword.append_gap

lemma isBoundIn_group {p front : Pattern} {word : String} (hp : Heads p front n)
    (hn : n ∉ front.numbers) (hfront : Declares front [word] Separates) (hm : m ∈ p.inLines text) :
    IsBoundIn text word (m.group n) := by
  obtain ⟨place, hword, hbetween⟩ := exists_place hp hn hfront (fun _ => And.right) hm
  exact ⟨place, List.mem_singleton.mp hword, place.isToken hbetween.1⟩

/-! ## Lists of names -/

/-- The texts between commas, without the blanks around them and without those that are blank. -/
def itemsIn (inner : List Char) : List String :=
  ((inner.splitOn ',').map fun piece => trim (.ofList piece)).filter (· ≠ "")

/-- The names in a list: each once, as they come up first, none of them blank or with blanks at its
ends, and no comma in any. -/
structure IsNameList (inner : List Char) (names : List String) : Prop where
  roster : Text.IsRoster names (itemsIn inner)
  nonempty : ∀ name ∈ names, name ≠ ""
  trimmed : ∀ name ∈ names, trim name = name
  noComma : ∀ name ∈ names, ',' ∉ name.toList

lemma isNameList_specifiers (inner : List Char) :
    IsNameList inner (specifiers (.ofList inner)) := by
  have hitems : specifiers (.ofList inner) = Text.firstOccurrences (itemsIn inner) := by
    rw [specifiers, Text.split, String.toList_ofList, Text.pieces_eq_splitOn, List.map_map]
    rfl
  have hroster := Text.isRoster_firstOccurrences (itemsIn inner)
  rw [← hitems] at hroster
  have hitem : ∀ name ∈ specifiers (.ofList inner), name ≠ "" ∧
      ∃ piece ∈ inner.splitOn ',', name = trim (.ofList piece) := by
    intro name hname
    obtain ⟨htrimmed, hne⟩ := List.mem_filter.mp ((hroster.mem_iff name).mp hname)
    obtain ⟨piece, hpiece, rfl⟩ := List.mem_map.mp htrimmed
    exact ⟨of_decide_eq_true hne, piece, hpiece, rfl⟩
  refine ⟨hroster, fun name hname => (hitem name hname).1, fun name hname => ?_, fun name hname => ?_⟩
  · obtain ⟨-, piece, -, rfl⟩ := hitem name hname
    rw [trim, trim, String.toList_ofList, String.toList_ofList, Text.trimBy_trimBy]
  · obtain ⟨-, piece, hpiece, rfl⟩ := hitem name hname
    rw [← Text.pieces_eq_splitOn] at hpiece
    intro hcomma
    rw [trim, String.toList_ofList, String.toList_ofList] at hcomma
    exact Text.notMem_of_mem_pieces hpiece (Text.trimBy_subset hcomma)

/-- What a match of an import of names has between its braces. -/
lemma exists_inner (hm : m ∈ importNamed.inLines text) : ∃ inner, m.group 1 = .ofList inner ∧
    '\x7d' ∉ inner ∧ '\x7b' :: (inner ++ ['\x7d']) <:+: text := by
  obtain ⟨line, indent, _, rest, hhead, hspans, -, -⟩ := exists_of_mem_inLines hm
  obtain ⟨_, clause, _, _, rfl, hgroups, ⟨_, between, _, _, rfl, rfl,
    ⟨front, _, inFront, _, rfl, rfl, -, hbraced⟩, -, -, rfl⟩, hclause⟩ := hspans
  obtain ⟨source, rfl, -⟩ := exists_of_spans_fromModule hclause
  -- the run goes up to the first closing brace, whatever opens before it
  obtain ⟨_, _, _, _, rfl, rfl, ⟨_, inner, _, _, rfl, rfl, ⟨⟨opening, rfl, hopening⟩, rfl⟩, _, rfl,
    hinner, -, rfl⟩, ⟨closing, rfl, hclosing⟩, rfl⟩ := hbraced
  refine ⟨inner, ?_, fun hclose => ?_, line ++ indent ++ front, between ++ (clause ++ rest), ?_⟩
  · rw [Match.group, Match.group?, hgroups]
    rfl
  · have hother := List.all_eq_true.mp hinner _ hclose
    exact absurd hother (by decide)
  · rw [hhead.text_eq, beq_iff_eq.mp hopening, beq_iff_eq.mp hclosing]
    simp only [List.append_assoc, List.cons_append, List.nil_append]

/-! ## Imports -/

/-- An import as the text has it. A whole module and a default export are bound to one identifier, and
names are listed between two braces. -/
def IsWellFormed (text : List Char) (i : Import) : Prop :=
  IsModuleIn text i.source ∧
    match i.kind with
    | .wildcard => ∃ ident, i.specifiers = [ident] ∧ IsBoundIn text "as" ident
    | .default => ∃ ident, i.specifiers = [ident] ∧ IsBoundIn text "import" ident
    | .named => ∃ inner, '\x7d' ∉ inner ∧ '\x7b' :: (inner ++ ['\x7d']) <:+: text ∧
      IsNameList inner i.specifiers

lemma isWellFormed_wildcard (hi : i ∈ wildcardImports content) :
    i.kind = .wildcard ∧ IsWellFormed content i := by
  obtain ⟨m, hm, rfl⟩ := List.mem_map.mp hi
  exact ⟨rfl, isModuleIn_group hm, m.group 1, rfl,
    isBoundIn_group importWildcard_heads (by decide) declares_wildcardFront hm⟩

lemma isWellFormed_default (hi : i ∈ defaultImports content) :
    i.kind = .default ∧ IsWellFormed content i := by
  obtain ⟨m, hm, rfl⟩ := List.mem_map.mp (((Text.isRoster_firstOccurrences _).mem_iff i).mp hi)
  exact ⟨rfl, isModuleIn_group hm, m.group 1, rfl,
    isBoundIn_group importDefault_heads (by decide) declares_bindingFront hm⟩

lemma isWellFormed_named (hi : i ∈ namedImports content) :
    i.kind = .named ∧ IsWellFormed content i := by
  obtain ⟨m, hm, rfl⟩ := List.mem_map.mp hi
  obtain ⟨inner, hgroup, hclose, hinner⟩ := exists_inner hm
  refine ⟨rfl, isModuleIn_group hm, inner, hclose, hinner, ?_⟩
  show IsNameList inner (specifiers (m.group 1))
  rw [hgroup]
  exact isNameList_specifiers inner

lemma isWellFormed_of_mem_imports (hi : i ∈ imports content) : IsWellFormed content i := by
  rcases List.mem_append.mp hi with hi | hi
  · rcases List.mem_append.mp hi with hi | hi
    · exact (isWellFormed_wildcard hi).2
    · exact (isWellFormed_default hi).2
  · exact (isWellFormed_named hi).2

/-- No name is imported twice from one module as its default export. -/
lemma pairwise_defaultImports (content : List Char) : (defaultImports content).Pairwise fun i j =>
    ¬(i.source = j.source ∧ i.specifiers = j.specifiers) := by
  have hnodup : (defaultImports content).Nodup := (Text.isRoster_firstOccurrences _).nodup
  refine List.Pairwise.imp_of_mem (fun {i j} hi hj hne hsame => hne ?_) hnodup
  -- all are of one kind, so that two with one module and one name are the same
  have hkind := (isWellFormed_default hi).1.trans (isWellFormed_default hj).1.symm
  cases i
  cases j
  cases hsame.1
  cases hsame.2
  cases hkind
  rfl

/-! ## Dependencies -/

/-- What an import binds is never empty. -/
lemma IsWellFormed.ne_empty (h : IsWellFormed text i) : ∀ name ∈ i.specifiers, name ≠ "" := by
  have hident : ∀ word, (∃ ident, i.specifiers = [ident] ∧ IsBoundIn text word ident) →
      ∀ name ∈ i.specifiers, name ≠ "" := by
    rintro word ⟨ident, hspecifiers, place, -⟩
    rw [hspecifiers]
    refine List.forall_mem_singleton.mpr ?_
    rintro rfl
    exact absurd place.isName.begins (by decide)
  obtain ⟨-, hbinding⟩ := h
  split at hbinding
  case h_1 => exact hident _ hbinding
  case h_2 => exact hident _ hbinding
  case h_3 =>
    obtain ⟨inner, -, -, hnames⟩ := hbinding
    exact hnames.nonempty

/-- Texts put together are not empty if the first of them is not. -/
lemma join_cons_ne_empty {sep name : String} (hname : name ≠ "") (names : List String) :
    Text.join sep (name :: names) ≠ "" := by
  intro hjoin
  rw [Text.join, ← String.toList_eq_nil_iff, String.toList_intercalate] at hjoin
  cases names with
  | nil =>
    rw [List.map_singleton, List.intercalate_singleton] at hjoin
    exact hname (String.toList_eq_nil_iff.mp hjoin)
  | cons other names =>
    rw [List.map_cons, List.map_cons, List.intercalate_cons_cons, List.append_assoc] at hjoin
    exact hname (String.toList_eq_nil_iff.mp (List.append_eq_nil_iff.mp hjoin).1)

/-- The dependency that an import becomes has a name. -/
lemma name_ofImport_ne_empty (h : IsWellFormed text i) (file : String) :
    (Dependency.ofImport file i).name ≠ "" := by
  have hnames := h.ne_empty
  unfold Dependency.ofImport
  dsimp only
  cases hspecifiers : i.specifiers with
  | nil => exact h.1.1
  | cons name names =>
    rw [hspecifiers] at hnames
    exact join_cons_ne_empty (hnames name List.mem_cons_self) names

lemma declarations_of_analyze? {p : Path} {text : String} {facts : SourceFacts}
    (h : analyze? p text = some facts) : facts.imports = (declarations text.toList).imports ∧
      facts.exports = (declarations text.toList).exports := by
  obtain ⟨-, heq⟩ := Option.ite_none_right_eq_some.mp h
  rw [← Option.some.inj heq]
  exact ⟨rfl, rfl⟩

/-- Whatever the text, the imports that are found in it come kind by kind and are well formed, no
default import comes twice, and each import and each export becomes one dependency. -/
theorem imports_wellFormed {p : Path} (hp : isReadable p = true) (text : String) :
    ∃ facts, analyze? p text = some facts ∧
      (∃ wildcards defaults named, facts.imports = wildcards ++ defaults ++ named ∧
        (∀ i ∈ wildcards, i.kind = .wildcard) ∧ (∀ i ∈ defaults, i.kind = .default) ∧
        (∀ i ∈ named, i.kind = .named) ∧
        defaults.Pairwise fun i j => ¬(i.source = j.source ∧ i.specifiers = j.specifiers)) ∧
      (∀ i ∈ facts.imports, IsWellFormed text.toList i) ∧
      ∀ file, (Dependency.ofFacts file facts).length =
          facts.imports.length + facts.exports.length ∧
        ∀ d ∈ Dependency.ofFacts file facts, d.kind ≠ .exported → d.name ≠ "" := by
  refine ⟨_, if_pos hp, ⟨wildcardImports text.toList, defaultImports text.toList,
    namedImports text.toList, rfl, fun i hi => (isWellFormed_wildcard hi).1,
    fun i hi => (isWellFormed_default hi).1, fun i hi => (isWellFormed_named hi).1,
    pairwise_defaultImports _⟩, fun i hi => isWellFormed_of_mem_imports hi, fun file => ⟨?_, ?_⟩⟩
  · rw [Dependency.ofFacts, List.length_append, List.length_map, List.length_map]
  · intro d hd hkind
    rcases List.mem_append.mp hd with hd | hd
    · obtain ⟨i, hi, rfl⟩ := List.mem_map.mp hd
      exact name_ofImport_ne_empty (isWellFormed_of_mem_imports hi) file
    · obtain ⟨e, -, rfl⟩ := List.mem_map.mp hd
      exact absurd rfl hkind

/-- A text that is no module: imports that come again, lists with gaps, quotes that do not match and
braces that are not closed. -/
def brokenModule : String :=
  "import a from 'x' import b from 'y'\nimport a from \"x\";\nimport e, \x7b \x7d from './w\"\n"
    ++ "import type \x7b , b,\x7b c as d ,, b \x7d from 'y'\nimport * as n\n from 't'\nimport \x7b f"

theorem imports_wellFormed_brokenModule : isReadable ⟨"src/broken.mjs"⟩ = true ∧
    ∃ facts, analyze? ⟨"src/broken.mjs"⟩ brokenModule = some facts ∧
      facts.imports = [⟨"t", ["n"], .wildcard⟩, ⟨"x", ["a"], .default⟩, ⟨"./w", ["e"], .default⟩,
        ⟨"./w", [], .named⟩, ⟨"y", ["b", "\x7b c as d"], .named⟩] ∧
      (∀ i ∈ facts.imports, IsWellFormed brokenModule.toList i) ∧
      (Dependency.ofFacts "broken.mjs" facts).length = 5 ∧
      ∀ d ∈ Dependency.ofFacts "broken.mjs" facts, d.kind ≠ .exported → d.name ≠ "" := by
  have hp : isReadable ⟨"src/broken.mjs"⟩ = true := by decide
  obtain ⟨facts, hfacts, -, hformed, hedges⟩ := imports_wellFormed hp brokenModule
  obtain ⟨hlength, hnames⟩ := hedges "broken.mjs"
  obtain ⟨himports, hexports⟩ := declarations_of_analyze? hfacts
  -- a text is far slower to compute with than the list of its characters
  have hfound : (declarations brokenModule.toList).imports = [⟨"t", ["n"], .wildcard⟩,
      ⟨"x", ["a"], .default⟩, ⟨"./w", ["e"], .default⟩, ⟨"./w", [], .named⟩,
      ⟨"y", ["b", "\x7b c as d"], .named⟩] := by
    delta brokenModule
    rw [String.toList_append, String.toList_ofList, String.toList_ofList]
    decide +kernel
  have hnone : (declarations brokenModule.toList).exports = [] := by
    delta brokenModule
    rw [String.toList_append, String.toList_ofList, String.toList_ofList]
    decide +kernel
  rw [hfound] at himports
  rw [hnone] at hexports
  refine ⟨hp, facts, hfacts, himports, hformed, ?_, hnames⟩
  rw [hlength, himports, hexports]
  rfl

end DirectoryNotes.Source
