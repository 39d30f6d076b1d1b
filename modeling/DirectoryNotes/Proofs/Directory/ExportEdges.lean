import DirectoryNotes.Proofs.Directory.Summary
import DirectoryNotes.Proofs.Source.Exports

/-!
# Exported functions and the edges of a record

A record shows the functions that a source file exports, and it has an edge for each of its exports.

* `AgreesOnExports`: what is declared as exported, and the exports of the same text;
* `functions_summaryWith`: where the functions that a record shows come from;
* `exported_declarations_listed`: the edge of each of them.
-/

namespace DirectoryNotes

open Source

variable {t : FileTree} {directory : Path} {a : Analyzer} {names : List String} {paths : List Path}

namespace Source

/-- What is declared as exported is among the exports, unless an earlier export has taken its word
`export` for a name, or the name of a function stands right behind its word or star. -/
structure AgreesOnExports (content : List Char) (facts : SourceFacts) : Prop where
  classes : ∀ c ∈ facts.classes, c.isExported = true →
    IsListed facts.exports c.name ∨ IsOvertaken content c.name
  interfaces : ∀ i ∈ facts.interfaces, i.isExported = true →
    IsListed facts.exports i.name ∨ IsOvertaken content i.name
  functions : ∀ f ∈ facts.functions, f.isExported = true →
    IsListed facts.exports f.name ∨ IsOvertaken content f.name ∨ IsAttached content f.name

lemma agreesOnExports {p : Path} {content : String} {facts : SourceFacts}
    (h : analyze? p content = some facts) : AgreesOnExports content.toList facts := by
  obtain ⟨-, heq⟩ := Option.ite_none_right_eq_some.mp h
  obtain rfl := Option.some.inj heq
  constructor
  case classes => exact fun c hc => isListed_class hc
  case interfaces => exact fun i hi => isListed_interface hi
  case functions => exact fun f hf => isListed_function hf

end Source

namespace Analyzer

/-- A file is shown with the topics of its name or with functions that its text exports. -/
lemma functions_summaryWith {file : InspectedFile} {words : Option String} :
    (file.summaryWith words).functions = file.summary.functions ∨
      ∃ text facts, file.source? = some (text, facts) ∧
        ∀ shown ∈ (file.summaryWith words).functions,
          ∃ f ∈ facts.exportedFunctions, shown = f.signature := by
  unfold InspectedFile.summaryWith
  split
  · exact .inl rfl
  · next text facts hsource =>
    dsimp only
    split
    · exact .inl rfl
    · refine .inr ⟨text, facts, hsource, fun shown hshown => ?_⟩
      obtain ⟨f, hf, rfl⟩ := List.mem_map.mp hshown
      exact ⟨f, List.mem_of_mem_take hf, rfl⟩

/-- The edge of an exported name of a file. -/
def exportEdge (file name : String) : Dependency := ⟨name, .exported, file, Dependency.everyone⟩

/-- The exports of a visible file are among the dependencies. -/
lemma exportEdge_mem {path : Path} {text : String} {facts : SourceFacts} {name : String}
    (hpath : path ∈ paths) (hsource : InspectedFile.source t path = some (text, facts))
    (hname : IsListed facts.exports name) :
    exportEdge path.displayName name ∈
      ((paths.map (InspectedFile.inspect t)).filterMap (·.sourceSummary?)).flatMap
        fun s => Dependency.ofFacts s.name s.facts := by
  obtain ⟨e, he, rfl⟩ := hname
  refine List.mem_flatMap.mpr ⟨⟨path.displayName, facts⟩, ?_, ?_⟩
  · refine List.mem_filterMap.mpr ⟨InspectedFile.inspect t path, List.mem_map_of_mem hpath, ?_⟩
    rw [InspectedFile.sourceSummary?_inspect, hsource]
    rfl
  · exact List.mem_append_right _ (List.mem_map_of_mem he)

/-- The functions of a file that a record shows are topics of its name, or they are exported in its
text; then there is an edge for each of them, with the exceptions that the exports make. -/
def ShowsExports (t : FileTree) (paths : List Path) (r : DirectoryRecord) (file : FileSummary) :
    Prop :=
  file.functions = FileName.topics file.name ∨
    ∃ path ∈ paths, ∃ text facts, path.displayName = file.name ∧
      InspectedFile.source t path = some (text, facts) ∧
      ∀ shown ∈ file.functions, ∃ f ∈ facts.exportedFunctions, shown = f.signature ∧
        (exportEdge file.name f.name ∈ r.dependencies ∨ IsOvertaken text.toList f.name ∨
          IsAttached text.toList f.name)

lemma showsExports {r : DirectoryRecord} {file : InspectedFile} {reply : Option (Reply String)}
    (hfile : file ∈ paths.map (InspectedFile.inspect t))
    (hdependencies : r.dependencies =
      ((paths.map (InspectedFile.inspect t)).filterMap (·.sourceSummary?)).flatMap
        fun s => Dependency.ofFacts s.name s.facts) :
    ShowsExports t paths r (describedBy file reply) := by
  obtain ⟨path, hpath, rfl⟩ := List.mem_map.mp hfile
  have hname : (describedBy (InspectedFile.inspect t path) reply).name = path.displayName := by
    rw [describedBy, InspectedFile.summaryWith_name, InspectedFile.name_inspect]
  have hfunctions : (describedBy (InspectedFile.inspect t path) reply).functions =
      ((InspectedFile.inspect t path).summaryWith none).functions := rfl
  unfold ShowsExports
  rw [hname, hfunctions]
  rcases functions_summaryWith with htopics | ⟨text, facts, hsource, hexported⟩
  · exact .inl (htopics.trans InspectedFile.functions_inspect)
  · have hsource' : InspectedFile.source t path = some (text, facts) := hsource
    refine .inr ⟨path, hpath, text, facts, rfl, hsource', fun shown hshown => ?_⟩
    obtain ⟨f, hf, heq⟩ := hexported shown hshown
    obtain ⟨hmem, hexport⟩ := List.mem_filter.mp hf
    have hagrees := agreesOnExports (InspectedFile.analyze?_of_source hsource')
    refine ⟨f, hf, heq, ?_⟩
    rcases hagrees.functions f hmem hexport with hlisted | hexception
    · rw [hdependencies]
      exact .inl (exportEdge_mem hpath hsource' hlisted)
    · exact .inr hexception

/-- What a text declares as exported is among its exports, and each function that the record of a
directory shows for one of its files has an edge. The exceptions are declarations whose word `export`
an earlier export has taken for a name, and functions whose name stands right behind the word or the
star. -/
theorem exported_declarations_listed {p : Path} (hp : isReadable p = true) (content : String)
    (a : Analyzer) {t : FileTree} {directory : Path} {names : List String}
    (h : t.listDirectory directory = .ok names) :
    (∃ facts, analyze? p content = some facts ∧ AgreesOnExports content.toList facts) ∧
    ∃ paths r questions, a.visibleFiles t directory = .ok paths ∧
      a.record t directory = .ok (r, questions) ∧ ∀ file ∈ r.keyFiles, ShowsExports t paths r file := by
  obtain ⟨paths, hpaths⟩ : ∃ paths, a.visibleFiles t directory = .ok paths :=
    ⟨_, by rw [visibleFiles, h]; rfl⟩
  obtain ⟨questions, hrecord⟩ := record_eq hpaths rfl
  have hfacts : analyze? p content = some _ := if_pos hp
  refine ⟨⟨_, hfacts, agreesOnExports hfacts⟩, paths, _, questions, hpaths, hrecord,
    fun file hfile => ?_⟩
  have hranked : file ∈ a.summariesOf (paths.map (InspectedFile.inspect t)) :=
    FileSummary.mem_of_mem_rank hfile
  rw [summariesOf_eq] at hranked
  obtain ⟨x, hx, rfl⟩ := List.mem_map.mp hranked
  exact showsExports (List.of_mem_zip hx).1 rfl

/-- A class and a function behind words of every kind. -/
def modifiedExports : String :=
  "export default abstract\n  class Base \x7b\x7d\nexport async function * steps(from) \x7b\x7d\n"

/-- A tree with one source file that exports a function. -/
def oneFunction : FileTree where
  entries := [(["run.ts"], .file "export function run(x) \x7b\x7d\n".toUTF8 1)]

theorem exported_declarations_listed_modifiedExports :
    isReadable ⟨"base.ts"⟩ = true ∧ oneFunction.listDirectory ⟨"/"⟩ = .ok ["run.ts"] ∧
      (∃ facts, analyze? ⟨"base.ts"⟩ modifiedExports = some facts ∧
        facts.exportedFunctions.map (·.name) = ["steps"] ∧
        (IsListed facts.exports "steps" ∨ IsOvertaken modifiedExports.toList "steps" ∨
          IsAttached modifiedExports.toList "steps")) ∧
      ∃ paths r questions, (Analyzer.mk {} ⟨⟨"/"⟩, []⟩ none .absent).record oneFunction ⟨"/"⟩ =
        .ok (r, questions) ∧ ∀ file ∈ r.keyFiles, ShowsExports oneFunction paths r file := by
  have hp : isReadable ⟨"base.ts"⟩ = true := by decide
  have hlist : oneFunction.listDirectory ⟨"/"⟩ = .ok ["run.ts"] :=
    FileTree.listDirectory_of_find (FileTree.find_slash oneFunction)
  obtain ⟨⟨facts, hfacts, hagrees⟩, paths, r, questions, -, hrecord, hshows⟩ :=
    exported_declarations_listed hp modifiedExports ⟨{}, ⟨⟨"/"⟩, []⟩, none, .absent⟩ hlist
  have hnames : facts.exportedFunctions.map (·.name) = ["steps"] := by
    rw [← Option.some.inj hfacts]
    show (declarations modifiedExports.toList).exportedFunctions.map (·.name) = ["steps"]
    decide +kernel
  obtain ⟨f, hf, hname⟩ := List.mem_map.mp (hnames ▸ List.mem_singleton_self "steps" :
    "steps" ∈ facts.exportedFunctions.map (·.name))
  obtain ⟨hmem, hexport⟩ := List.mem_filter.mp hf
  have hsteps := hagrees.functions f hmem hexport
  rw [hname] at hsteps
  exact ⟨hp, hlist, ⟨facts, hfacts, hnames, hsteps⟩, paths, r, questions, hrecord, hshows⟩

/-- The star of a generator stands right before its name. -/
def starredGenerator : String := "export function *gen() \x7b\x7d\n"

/-- A constant without a name comes before the export of a function. -/
def namelessConstant : String := "export const\nexport function run() \x7b\x7d\n"

/-- An exported function may be missing among the exports. -/
theorem exported_function_not_listed :
    (∃ facts, analyze? ⟨"gen.ts"⟩ starredGenerator = some facts ∧
      (∃ f ∈ facts.functions, f.isExported = true ∧ f.name = "gen") ∧
      ¬ IsListed facts.exports "gen") ∧
    ∃ facts, analyze? ⟨"run.ts"⟩ namelessConstant = some facts ∧
      (∃ f ∈ facts.functions, f.isExported = true ∧ f.name = "run") ∧
      ¬ IsListed facts.exports "run" := by
  refine ⟨⟨_, if_pos (by decide), ?_, ?_⟩, ⟨_, if_pos (by decide), ?_, ?_⟩⟩
  · show ∃ f ∈ functions starredGenerator.toList, f.isExported = true ∧ f.name = "gen"
    decide +kernel
  · show ¬ IsListed (declarations starredGenerator.toList).exports "gen"
    decide +kernel
  · show ∃ f ∈ functions namelessConstant.toList, f.isExported = true ∧ f.name = "run"
    decide +kernel
  · show ¬ IsListed (declarations namelessConstant.toList).exports "run"
    decide +kernel

end Analyzer

end DirectoryNotes
