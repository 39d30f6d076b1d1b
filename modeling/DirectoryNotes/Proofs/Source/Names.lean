import DirectoryNotes.Proofs.Path.Below
import DirectoryNotes.Proofs.Pattern.Matching
import DirectoryNotes.Proofs.Text.Lines
import DirectoryNotes.Source.Analyzer

/-!
# Names found in a source file

Whatever stands in a source file, a name that is found in it stands in one line: no pattern lets a
line feed into the group of a name, and a parameter is cut off at the first blank.

* `newline_notMem_group`: the text of a group that cannot hold a line feed;
* `newline_notMem_signature`: the signature of a function;
* `newline_notMem_purpose`: the sentence on what a file is for.

The module of an import is no such name, it may go over several lines.
-/

namespace DirectoryNotes.Source

open Pattern Text

variable {content : List Char} {p : Path}

lemma newline_notMem_group {pattern : Pattern} {m : Match} {n : Nat}
    (h : pattern.takesInGroup n '\n' = false) (hm : m ∈ pattern.inLines content) :
    '\n' ∉ (m.group n).toList := by
  intro hmem
  rw [mem_group_of_mem_inLines hm hmem] at h
  cases h

/-! ## Declarations -/

/-- The name and the parameters of a function stand in one line. -/
lemma newline_notMem_function {f : FunctionFact} (hf : f ∈ functions content) :
    '\n' ∉ f.name.toList ∧ ∀ param ∈ f.params, '\n' ∉ param.toList := by
  have hdeclared : functionDeclaration.takesInGroup 3 '\n' = false := by decide
  have harrow : arrowFunction.takesInGroup 2 '\n' = false := by decide
  rcases List.mem_append.mp hf with hf | hf
  · obtain ⟨m, hm, rfl⟩ := List.mem_map.mp hf
    refine ⟨newline_notMem_group hdeclared hm, ?_⟩
    intro param hparam
    obtain ⟨piece, -, hword⟩ := List.mem_filterMap.mp hparam
    exact newline_notMem_firstWord hword
  · obtain ⟨m, hm, rfl⟩ := List.mem_map.mp hf
    refine ⟨newline_notMem_group harrow hm, ?_⟩
    intro param hparam
    cases hparam

/-- A signature stands in one line. -/
lemma newline_notMem_signature {f : FunctionFact} (hf : f ∈ functions content) :
    '\n' ∉ f.signature.toList := by
  have hmarks : '\n' ∉ "(".toList ∧ '\n' ∉ ")".toList ∧ '\n' ∉ ", ".toList := by decide
  obtain ⟨hname, hparams⟩ := newline_notMem_function hf
  have hlist : '\n' ∉ (join ", " f.params).toList := by
    intro hmem
    rcases mem_join hmem with hsep | ⟨param, hparam, hmem⟩
    · exact hmarks.2.2 hsep
    · exact hparams param hparam hmem
  unfold FunctionFact.signature
  rw [← join]
  simp only [String.toList_append, List.mem_append, not_or]
  exact ⟨⟨⟨hname, hmarks.1⟩, hlist⟩, hmarks.2.1⟩

lemma newline_notMem_class {c : ClassFact} (hc : c ∈ classes content) : '\n' ∉ c.name.toList := by
  have hgroup : classDeclaration.takesInGroup 2 '\n' = false := by decide
  obtain ⟨m, hm, rfl⟩ := List.mem_map.mp hc
  exact newline_notMem_group hgroup hm

lemma newline_notMem_interface {i : InterfaceFact} (hi : i ∈ interfaces content) :
    '\n' ∉ i.name.toList := by
  have hgroup : interfaceDeclaration.takesInGroup 2 '\n' = false := by decide
  obtain ⟨m, hm, rfl⟩ := List.mem_map.mp hi
  exact newline_notMem_group hgroup hm

/-! ## Purposes -/

lemma newline_notMem_phrase {phrase : String} {names : List String}
    (hphrase : '\n' ∉ phrase.toList) (hnames : ∀ name ∈ names, '\n' ∉ name.toList) :
    '\n' ∉ (phrase ++ join ", " names).toList := by
  have hsep : '\n' ∉ ", ".toList := by decide
  rw [String.toList_append, List.mem_append, not_or]
  refine ⟨hphrase, ?_⟩
  intro hmem
  rcases mem_join hmem with hmem | ⟨name, hname, hmem⟩
  · exact hsep hmem
  · exact hnames name hname hmem

/-- What a file is for is said in one line, if its name is one. -/
theorem newline_notMem_purpose (hstem : ∀ stem ∈ p.stem?, '\n' ∉ stem.toList) :
    '\n' ∉ (purpose p (declarations content)).toList := by
  have hwords : '\n' ∉ "Test suite for ".toList ∧ '\n' ∉ "Module entry point and exports".toList ∧
      '\n' ∉ "Defines ".toList ∧ '\n' ∉ " class with ".toList ∧ '\n' ∉ " methods".toList := by
    decide
  have hphrases : '\n' ∉ "Type definitions: ".toList ∧ '\n' ∉ "Exports functions: ".toList ∧
      '\n' ∉ "UI component module".toList ∧
      '\n' ∉ "Server module handling HTTP requests".toList ∧
      '\n' ∉ "Module implementation".toList := by
    decide
  obtain ⟨htest, hindex, hdefines, hclass, hmethods⟩ := hwords
  obtain ⟨htypes, hexports, hui, hserver, hother⟩ := hphrases
  have hname : '\n' ∉ (p.stem?.getD "").toList := by
    cases hp : p.stem? with
    | none => exact List.not_mem_nil
    | some stem => exact hstem stem hp
  unfold purpose
  dsimp only
  split
  · rw [String.toList_append, List.mem_append, not_or]
    exact ⟨htest, newline_notMem_trimEndings (newline_notMem_trimEndings hname _) _⟩
  split
  · exact hindex
  split
  · next c rest hclasses =>
    have hc : c ∈ classes content := by
      show c ∈ (declarations content).classes
      rw [hclasses]
      exact List.mem_cons_self
    simp only [String.toList_append, List.mem_append, not_or]
    exact ⟨⟨⟨⟨hdefines, newline_notMem_class hc⟩, hclass⟩, newline_notMem_toString _⟩, hmethods⟩
  split
  · refine newline_notMem_phrase htypes ?_
    intro name hmem
    obtain ⟨i, hi, rfl⟩ := List.mem_map.mp hmem
    exact newline_notMem_interface hi
  split
  · refine newline_notMem_phrase hexports ?_
    intro name hmem
    obtain ⟨f, hf, rfl⟩ := List.mem_map.mp hmem
    exact (newline_notMem_function (List.mem_of_mem_filter hf)).1
  split
  · exact hui
  split
  · exact hserver
  · exact hother

end DirectoryNotes.Source
