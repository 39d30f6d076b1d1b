import DirectoryNotes.Proofs.Pattern.LineEnds
import DirectoryNotes.Proofs.Source.Names

/-!
# Source files with other line ends

A source file says the same whether its lines end in a line feed or in a carriage return and a line
feed. Every pattern of a declaration keeps pace, and what is read of a group does not depend on the
blanks around it; only an import whose module or name goes over a line end holds that line end.

* `importWildcard_keepsPace`, …, `property_keepsPace`: the eleven patterns;
* `specifiers_withReturns`, `ofKeyword_withReturns`, `blockBody_withReturns`: the readers of groups
  and of blocks;
* `analyze?_withReturns`: the facts about the whole file.
-/

namespace DirectoryNotes

open Text (withReturns split trim firstOccurrences firstWord? pieces)

/-! ## Groups -/

namespace Match.Alike

variable {text : List Char} {after : List Stand} {m m' : Match} {n : Nat}

lemma group? (h : Match.Alike text after m m') (n : Nat) :
    m'.group? n = (m.group? n).map withReturns := by
  unfold Match.group?
  rw [h.groups, Groups.withReturns]
  induction m.groups with
  | nil => rfl
  | cons g groups ih =>
    rw [List.map_cons, List.lookup_cons, List.lookup_cons, ih]
    split <;> rfl

lemma has (h : Match.Alike text after m m') (n : Nat) : m'.has n = m.has n := by
  rw [Match.has, Match.has, h.group? n, Option.isSome_map]

lemma group (h : Match.Alike text after m m') (n : Nat) :
    m'.group n = .ofList (withReturns (m.group n).toList) := by
  rw [Match.group, Match.group, h.group? n, String.toList_ofList]
  cases m.group? n <;> rfl

/-- A group in one line is the same in both matches. -/
lemma group_eq (h : Match.Alike text after m m') (hn : '\n' ∉ (m.group n).toList) :
    m'.group n = m.group n := by
  rw [h.group, Text.withReturns_eq_self hn, String.ofList_toList]

end Match.Alike

namespace Source

open Pattern

variable {β : Type} {p : Pattern} {after : List Stand} {text : List Char}

/-- What is read of each match is read in both texts, if it is the same for matches that are
alike. -/
lemma map_inLines_withReturns {f : Match → β} (hp : p.KeepsPace after)
    (hf : ∀ m ∈ p.inLines text, ∀ m', Match.Alike text after m m' → f m' = f m) :
    (p.inLines (withReturns text)).map f = (p.inLines text).map f := by
  have halike := forall₂_inLines hp text
  generalize p.inLines text = found at hf halike
  generalize p.inLines (withReturns text) = found' at halike
  induction halike with
  | nil => rfl
  | cons hm _ ih =>
    obtain ⟨hhead, htail⟩ := List.forall_mem_cons.mp hf
    rw [List.map_cons, List.map_cons, hhead _ hm, ih htail]

/-! ## Patterns -/

lemma importWildcard_keepsPace : importWildcard.KeepsPace Stand.same :=
  ⟨by decide, by decide, by decide⟩

lemma importDefault_keepsPace : importDefault.KeepsPace Stand.same :=
  ⟨by decide, by decide, by decide⟩

lemma importNamed_keepsPace : importNamed.KeepsPace Stand.same :=
  ⟨by decide, by decide, by decide⟩

lemma exportDeclaration_keepsPace : exportDeclaration.KeepsPace Stand.same :=
  ⟨by decide, by decide, by decide⟩

/-- This one may end behind a return, before the line feed. -/
lemma exportDefaultName_keepsPace :
    exportDefaultName.KeepsPace [.level, .between, .level, .between] :=
  ⟨by decide, by decide, by decide⟩

lemma functionDeclaration_keepsPace : functionDeclaration.KeepsPace Stand.same :=
  ⟨by decide, by decide, by decide⟩

lemma arrowFunction_keepsPace : arrowFunction.KeepsPace Stand.same :=
  ⟨by decide, by decide, by decide⟩

lemma classDeclaration_keepsPace : classDeclaration.KeepsPace Stand.same :=
  ⟨by decide, by decide, by decide⟩

lemma method_keepsPace : method.KeepsPace Stand.same :=
  ⟨by decide, by decide, by decide⟩

lemma interfaceDeclaration_keepsPace : interfaceDeclaration.KeepsPace Stand.same :=
  ⟨by decide, by decide, by decide⟩

lemma property_keepsPace : property.KeepsPace Stand.same :=
  ⟨by decide, by decide, by decide⟩

/-! ## Readers -/

lemma split_withReturns (s : String) :
    split ',' (.ofList (withReturns s.toList)) =
      (pieces ',' s.toList).map fun piece => .ofList (withReturns piece) := by
  rw [split, String.toList_ofList, Text.pieces_withReturns (by decide) (by decide), List.map_map]
  rfl

lemma trim_withReturns (s : List Char) :
    trim (.ofList (withReturns s)) = .ofList (withReturns (trim (.ofList s)).toList) := by
  rw [trim, trim, String.toList_ofList, String.toList_ofList, String.toList_ofList,
    Text.trimBy_withReturns (by decide)]

lemma mem_firstOccurrences {α : Type} [BEq α] [LawfulBEq α] {x : α} {xs : List α} :
    x ∈ firstOccurrences xs ↔ x ∈ xs := by
  rw [Text.firstOccurrences_eq_eraseDups, List.mem_eraseDups]

/-- Names between braces that stand in one line each are read without the line ends around them. -/
lemma specifiers_withReturns {inner : String}
    (h : ∀ name ∈ specifiers inner, '\n' ∉ name.toList) :
    specifiers (.ofList (withReturns inner.toList)) = specifiers inner := by
  have htrim : ∀ piece ∈ pieces ',' inner.toList,
      trim (.ofList (withReturns piece)) = trim (.ofList piece) := by
    intro piece hpiece
    have hnewline : '\n' ∉ (trim (.ofList piece)).toList := by
      by_cases hempty : trim (.ofList piece) = ""
      · rw [hempty]
        exact List.not_mem_nil
      · refine h _ (mem_firstOccurrences.mpr (List.mem_filter.mpr ⟨?_, by simpa using hempty⟩))
        exact List.mem_map_of_mem (List.mem_map_of_mem hpiece)
    rw [trim_withReturns, Text.withReturns_eq_self hnewline, String.ofList_toList]
  have hpieces : (split ',' (.ofList (withReturns inner.toList))).map trim =
      (split ',' inner).map trim := by
    rw [split_withReturns, split, List.map_map, List.map_map]
    exact List.map_congr_left htrim
  rw [specifiers, specifiers, hpieces]

/-- The first words of parameters do not tell line ends apart. -/
lemma filterMap_firstWord?_withReturns (s : String) :
    (split ',' (.ofList (withReturns s.toList))).filterMap firstWord? =
      (split ',' s).filterMap firstWord? := by
  rw [split_withReturns, split, List.filterMap_map, List.filterMap_map]
  refine List.filterMap_congr fun piece _ => ?_
  exact Text.firstWord?_withReturns

lemma beginsWith_withReturns {s word : String} (hreturn : '\r' ∉ word.toList)
    (hnewline : '\n' ∉ word.toList) :
    Text.beginsWith (.ofList (withReturns s.toList)) word = Text.beginsWith s word := by
  rw [Text.beginsWith, Text.beginsWith, String.toList_ofList,
    Text.isPrefixOf_withReturns hreturn hnewline]

lemma endsWith_withReturns {s word : String} (hnewline : '\n' ∉ word.toList) :
    Text.endsWith (.ofList (withReturns s.toList)) word = Text.endsWith s word := by
  rw [Text.endsWith, Text.endsWith, String.toList_ofList, Text.isSuffixOf_withReturns hnewline]

lemma ofKeyword_withReturns (keyword : String) :
    ExportKind.ofKeyword (.ofList (withReturns keyword.toList)) = .ofKeyword keyword := by
  have hword : ∀ word : String, '\n' ∉ word.toList →
      (trim (.ofList (withReturns keyword.toList)) = word ↔ trim keyword = word) := by
    intro word hword
    rw [trim_withReturns, String.ofList_toList, ← String.toList_inj, String.toList_ofList,
      Text.withReturns_eq_iff hword, String.toList_inj]
  have hbegins : Text.beginsWith (trim (.ofList (withReturns keyword.toList))) "function" =
      Text.beginsWith (trim keyword) "function" := by
    rw [trim_withReturns, String.ofList_toList, beginsWith_withReturns (by decide) (by decide)]
  have hends : Text.endsWith (trim (.ofList (withReturns keyword.toList))) "class" =
      Text.endsWith (trim keyword) "class" := by
    rw [trim_withReturns, String.ofList_toList, endsWith_withReturns (by decide)]
  unfold ExportKind.ofKeyword
  dsimp only
  rw [hbegins, hends]
  simp only [hword "interface" (by decide), hword "type" (by decide), hword "enum" (by decide)]

lemma blockBody_withReturns (depth : Nat) (s : List Char) :
    blockBody depth (withReturns s) = withReturns (blockBody depth s) := by
  induction s generalizing depth with
  | nil => rfl
  | cons c cs ih =>
    by_cases hc : c = '\n'
    · subst hc
      have hplain : ∀ c : Char, c ≠ '\x7b' → c ≠ '\x7d' → ∀ cs,
          blockBody depth (c :: cs) = c :: blockBody depth cs := fun c hopen hclose cs => by
        rw [blockBody, if_neg hopen, if_neg hclose]
      rw [Text.withReturns_newline, hplain _ (by decide) (by decide),
        hplain _ (by decide) (by decide), hplain _ (by decide) (by decide), ih,
        Text.withReturns_newline]
    · rw [Text.withReturns_cons hc, blockBody, blockBody, ih, ih, ih]
      split
      · rw [Text.withReturns_cons hc]
      · split
        · split
          · rfl
          · rw [Text.withReturns_cons hc]
        · rw [Text.withReturns_cons hc]

/-! ## Members -/

lemma methods_withReturns (body : List Char) : methods (withReturns body) = methods body := by
  unfold methods
  rw [map_inLines_withReturns method_keepsPace fun m hm m' halike =>
    halike.group_eq (newline_notMem_group (by decide) hm)]

lemma properties_withReturns (body : List Char) :
    properties (withReturns body) = properties body :=
  map_inLines_withReturns property_keepsPace fun _ hm _ halike =>
    halike.group_eq (newline_notMem_group (by decide) hm)

/-- Matches that end at the same place have the same block behind them, up to line ends. -/
lemma bodyOf_alike {m m' : Match} (halike : Match.Alike text Stand.same m m') :
    bodyOf m' = withReturns (bodyOf m) := by
  obtain ⟨s, hs, hrel⟩ := halike.stop
  obtain ⟨before, -, -, hstop⟩ := hrel.exists_same hs
  rw [bodyOf, bodyOf, hstop, blockBody_withReturns]

/-! ## Declarations -/

variable (content : List Char)

lemma functions_withReturns : functions (withReturns content) = functions content := by
  have hdeclared : declaredFunctions (withReturns content) = declaredFunctions content := by
    refine map_inLines_withReturns functionDeclaration_keepsPace fun m hm m' halike => ?_
    rw [halike.group_eq (newline_notMem_group (by decide) hm), halike.group 4, halike.has, halike.has,
      filterMap_firstWord?_withReturns]
  have harrow : arrowFunctions (withReturns content) = arrowFunctions content := by
    refine map_inLines_withReturns arrowFunction_keepsPace fun m hm m' halike => ?_
    rw [halike.group_eq (newline_notMem_group (by decide) hm), halike.has, halike.has]
  rw [functions, functions, hdeclared, harrow]

lemma classes_withReturns : classes (withReturns content) = classes content := by
  refine map_inLines_withReturns classDeclaration_keepsPace fun m hm m' halike => ?_
  rw [halike.group_eq (newline_notMem_group (by decide) hm), halike.has, bodyOf_alike halike,
    methods_withReturns]

lemma interfaces_withReturns : interfaces (withReturns content) = interfaces content := by
  refine map_inLines_withReturns interfaceDeclaration_keepsPace fun m hm m' halike => ?_
  rw [halike.group_eq (newline_notMem_group (by decide) hm), halike.has, bodyOf_alike halike,
    properties_withReturns]

lemma exports_withReturns (facts : SourceFacts) :
    exports (withReturns content) facts = exports content facts := by
  have hdeclared : declaredExports (withReturns content) = declaredExports content := by
    refine map_inLines_withReturns exportDeclaration_keepsPace fun m hm m' halike => ?_
    rw [halike.group_eq (newline_notMem_group (by decide) hm), halike.has, halike.group 2,
      ofKeyword_withReturns]
  have hnames : (exportDefaultName.inLines (withReturns content)).map (·.group 1) =
      (exportDefaultName.inLines content).map (·.group 1) :=
    map_inLines_withReturns exportDefaultName_keepsPace fun m hm m' halike =>
      halike.group_eq (newline_notMem_group (by decide) hm)
  rw [exports, exports, hdeclared, hnames]

/-- The module and the names of an import stand in one line each. -/
def InOneLine (i : Import) : Prop :=
  '\n' ∉ i.source.toList ∧ ∀ name ∈ i.specifiers, '\n' ∉ name.toList

instance (i : Import) : Decidable (InOneLine i) :=
  inferInstanceAs (Decidable (_ ∧ _))

variable {content}

/-- Imports that stand in one line are the same with other line ends. -/
lemma imports_withReturns (h : ∀ i ∈ imports content, InOneLine i) :
    imports (withReturns content) = imports content := by
  have hwildcard : wildcardImports (withReturns content) = wildcardImports content := by
    refine map_inLines_withReturns importWildcard_keepsPace fun m hm m' halike => ?_
    have hline := h _ (List.mem_append_left _ (List.mem_append_left _ (List.mem_map_of_mem hm)))
    have hname : m'.group 1 = m.group 1 :=
      halike.group_eq (newline_notMem_group (by decide) hm)
    rw [halike.group_eq hline.1, hname]
  have hdefault : defaultImports (withReturns content) = defaultImports content := by
    unfold defaultImports
    rw [map_inLines_withReturns importDefault_keepsPace fun m hm m' halike => ?_]
    have hline := h _ (List.mem_append_left _ (List.mem_append_right _
      (mem_firstOccurrences.mpr (List.mem_map_of_mem hm))))
    have hname : m'.group 1 = m.group 1 :=
      halike.group_eq (newline_notMem_group (by decide) hm)
    rw [halike.group_eq hline.1, hname]
  have hnamed : namedImports (withReturns content) = namedImports content := by
    refine map_inLines_withReturns importNamed_keepsPace fun m hm m' halike => ?_
    have hline := h _ (List.mem_append_right _ (List.mem_map_of_mem hm))
    rw [halike.group_eq hline.1, halike.group 1, specifiers_withReturns hline.2]
  rw [imports, imports, hwildcard, hdefault, hnamed]

/-! ## The whole file -/

/-- The facts about a source file do not depend on its line ends, if every import has its module and
its names in one line each. -/
theorem analyze?_withReturns {p : Path} (hp : isReadable p = true) (content : String) :
    ∃ facts, analyze? p content = some facts ∧
      ((∀ i ∈ facts.imports, InOneLine i) →
        analyze? p (.ofList (withReturns content.toList)) = some facts) := by
  refine ⟨_, if_pos hp, fun h => ?_⟩
  have hdeclarations : declarations (withReturns content.toList) = declarations content.toList := by
    simp only [declarations, imports_withReturns h, functions_withReturns, classes_withReturns,
      interfaces_withReturns, exports_withReturns]
  rw [analyze?, if_pos hp, String.toList_ofList, hdeclarations]

/-- A file with names imported over several lines, and a class and a default export behind them. -/
def severalLines : String :=
  "import \x7b\n  a,\n  b as c\n\x7d from 'm';\n\nexport class D \x7b\n  run() \x7b\x7d\n\x7d\n"
    ++ "export default e\n"

theorem analyze?_withReturns_severalLines : isReadable ⟨"d.ts"⟩ = true ∧
    ∃ facts, analyze? ⟨"d.ts"⟩ severalLines = some facts ∧ (∀ i ∈ facts.imports, InOneLine i) ∧
      facts.imports ≠ [] ∧ facts.classes ≠ [] ∧
      analyze? ⟨"d.ts"⟩ (.ofList (withReturns severalLines.toList)) = some facts := by
  have hp : isReadable ⟨"d.ts"⟩ = true := by decide
  obtain ⟨facts, hfacts, hreturns⟩ := analyze?_withReturns hp severalLines
  obtain rfl : { declarations severalLines.toList with
    purpose := purpose ⟨"d.ts"⟩ (declarations severalLines.toList) } = facts :=
      Option.some.inj hfacts
  have hline : ∀ i ∈ imports severalLines.toList, InOneLine i := by decide +kernel
  refine ⟨hp, _, hfacts, hline, ?_, ?_, hreturns hline⟩
  · show imports severalLines.toList ≠ []
    decide +kernel
  · show classes severalLines.toList ≠ []
    decide +kernel

end Source

end DirectoryNotes
