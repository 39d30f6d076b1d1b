import DirectoryNotes.Proofs.Directory.Summary
import DirectoryNotes.Proofs.FileTree.RealPath
import DirectoryNotes.Proofs.Text.Items
import Mathlib.Data.List.Forall2

/-!
# What one file changes in a record

A file of a directory may hold anything, or not be readable at all: the record of the directory has its
own facts about the file, and nothing else in it changes.

* `FileTree.Rewritten`: two trees that differ in what one file holds;
* `InspectedFile.inspectBy`, `Analyzer.recordBy`: records of files that are read in some way, which may
  fail. `record_eq_ok_iff` is the case of an analysis;
* `DirectoryRecord.AgreesOff`: how much of two records is the same;
* `record_rewritten`: so much of the records is the same whatever the file holds.
-/

namespace DirectoryNotes

open FileTree

/-! ## Trees that differ in one file -/

namespace FileTree

variable {t t' : FileTree} {g l : Location} {p directory : Path} {name : String} {e : Entry}

/-- A file stands at a place of two trees, with any bytes and any last change. Everywhere else the same
stands in both. -/
structure Rewritten (g : Location) (t t' : FileTree) : Prop where
  workingDirectory : t'.workingDirectory = t.workingDirectory
  file : ∃ bytes seconds, t.entryAt? g = some (.file bytes seconds)
  file' : ∃ bytes seconds, t'.entryAt? g = some (.file bytes seconds)
  others : ∀ m, m ≠ g → t'.entryAt? m = t.entryAt? m

/-- Whether a path leads to a location, links followed. -/
def leadsTo (t : FileTree) (g : Location) (p : Path) : Bool :=
  match t.find p with
  | .ok (l, _) => l == g
  | .error _ => false

/-- What is no link leads to itself only. -/
lemma leadsTo_eq_false (ht : t.WellFormed) (hd : t.find directory = .ok (l, .directory))
    (he : t.entryAt? (l ++ [name]) = some e) (hlink : ∀ target, e ≠ .link target)
    (hne : l ++ [name] ≠ g) : t.leadsTo g (directory.join ⟨name⟩) = false := by
  have hname := ht.isEntryName he name (by simp)
  have hnone : ∀ target, t.entryAt? (l ++ [name]) ≠ some (.link target) := by
    intro target heq
    rw [he, Option.some.injEq] at heq
    exact hlink target heq
  unfold leadsTo
  split
  · next k e' hfind =>
    obtain ⟨-, -, rfl, -⟩ := (find_join_iff hd hname.toIsPlainName hnone).mp hfind
    exact beq_false_of_ne hne
  · rfl

lemma rewritten_of_entries {rest : List (Location × Entry)} {bytes bytes' : ByteArray}
    {seconds seconds' : Int64} (hg : g ≠ []) (hworking : t'.workingDirectory = t.workingDirectory)
    (h : t.entries = (g, .file bytes seconds) :: rest)
    (h' : t'.entries = (g, .file bytes' seconds') :: rest) : Rewritten g t t' where
  workingDirectory := hworking
  file := ⟨bytes, seconds, by rw [entryAt?_of_ne_nil hg, h, lookup_cons_eq, if_pos rfl]⟩
  file' := ⟨bytes', seconds', by rw [entryAt?_of_ne_nil hg, h', lookup_cons_eq, if_pos rfl]⟩
  others m hm := by
    by_cases hnil : m = []
    · rw [hnil, entryAt?_nil, entryAt?_nil]
    · rw [entryAt?_of_ne_nil hnil, entryAt?_of_ne_nil hnil, h, h', lookup_cons_eq, lookup_cons_eq,
        if_neg hm, if_neg hm]

namespace Rewritten

lemma sameWays (h : Rewritten g t t') : SameWays t t' := by
  refine ⟨h.workingDirectory, fun m => ?_⟩
  by_cases hm : m = g
  · subst hm
    obtain ⟨bytes, seconds, hfile⟩ := h.file
    obtain ⟨bytes', seconds', hfile'⟩ := h.file'
    exact .inr ⟨bytes, seconds, bytes', seconds', hfile, hfile'⟩
  · exact .inl (h.others m hm)

/-- A path that leads elsewhere leads to the same entry in both trees. -/
lemma find_eq (h : Rewritten g t t') (hp : t.leadsTo g p = false) : t'.find p = t.find p := by
  unfold leadsTo find at hp
  unfold find
  rw [h.sameWays.locate_eq]
  cases hl : t.locate p with
  | error reason => rfl
  | ok l =>
    have hne : l ≠ g := by
      rintro rfl
      obtain ⟨bytes, seconds, hfile⟩ := h.file
      simp [hl, bind, Except.bind, hfile] at hp
    simp only [bind, Except.bind, h.others l hne]

/-- A path that leads to the file leads to it in both trees. -/
lemma find_of_leadsTo (h : Rewritten g t t') (hp : t.leadsTo g p = true) :
    ∃ bytes seconds bytes' seconds', t.find p = .ok (g, .file bytes seconds) ∧
      t'.find p = .ok (g, .file bytes' seconds') := by
  obtain ⟨bytes, seconds, hfile⟩ := h.file
  obtain ⟨bytes', seconds', hfile'⟩ := h.file'
  unfold leadsTo at hp
  split at hp
  · next l e hfind =>
    obtain rfl : l = g := by simpa using hp
    obtain ⟨hlocate, -⟩ := find_eq_ok_iff.mp hfind
    exact ⟨bytes, seconds, bytes', seconds', find_eq_ok_iff.mpr ⟨hlocate, hfile⟩,
      find_eq_ok_iff.mpr ⟨(h.sameWays.locate_eq p).trans hlocate, hfile'⟩⟩
  · cases hp

lemma leadsTo_eq (h : Rewritten g t t') (p : Path) : t'.leadsTo g p = t.leadsTo g p := by
  cases hp : t.leadsTo g p with
  | false =>
    rw [← hp]
    unfold leadsTo
    rw [h.find_eq hp]
  | true =>
    obtain ⟨_, _, _, _, -, hfind'⟩ := h.find_of_leadsTo hp
    unfold leadsTo
    rw [hfind']
    exact beq_self_eq_true g

/-- The path of a directory leads to it in both trees. -/
lemma find_directory (h : Rewritten g t t') (hd : t.find directory = .ok (l, .directory)) :
    t'.find directory = .ok (l, .directory) := by
  rw [h.find_eq, hd]
  obtain ⟨bytes, seconds, hfile⟩ := h.file
  unfold leadsTo
  rw [hd]
  refine beq_false_of_ne ?_
  rintro rfl
  rw [(find_eq_ok_iff.mp hd).2] at hfile
  cases hfile

/-- What is no directory cannot be listed in either tree. -/
lemma listDirectory_eq (h : Rewritten g t t')
    (hd : ¬∃ l, t.find directory = .ok (l, .directory)) :
    t'.listDirectory directory = t.listDirectory directory := by
  unfold listDirectory
  cases hp : t.leadsTo g directory with
  | true =>
    obtain ⟨_, _, _, _, hfind, hfind'⟩ := h.find_of_leadsTo hp
    rw [hfind, hfind']
    rfl
  | false =>
    rw [h.find_eq hp]
    cases hfind : t.find directory with
    | error reason => rfl
    | ok found =>
      obtain ⟨l, e⟩ := found
      cases e with
      | directory => exact absurd ⟨l, hfind⟩ hd
      | file bytes seconds => rfl
      | link target => rfl

lemma isFile_eq (h : Rewritten g t t') (p : Path) : t'.isFile p = t.isFile p := by
  unfold isFile
  cases hp : t.leadsTo g p with
  | false => rw [h.find_eq hp]
  | true =>
    obtain ⟨_, _, _, _, hfind, hfind'⟩ := h.find_of_leadsTo hp
    rw [hfind, hfind']
    rfl

lemma readText_eq (h : Rewritten g t t') (hp : t.leadsTo g p = false) :
    t'.readText p = t.readText p := by
  unfold readText readBytes
  rw [h.find_eq hp]

lemma perm_children (h : Rewritten g t t') (ht : t.WellFormed) (ht' : t'.WellFormed)
    (l : Location) : (t'.children l).Perm (t.children l) := by
  rw [List.perm_ext_iff_of_nodup (ht'.nodup_children l) (ht.nodup_children l)]
  intro name
  rw [mem_children_iff, mem_children_iff, h.sameWays.isSome_eq]

end Rewritten

end FileTree

/-! ## Ways to read -/

namespace InspectedFile

variable {t t' : FileTree} {g : Location} {p : Path} {read read' : Path → Except FileError String}

/-- A look at a file that is read in some way, which may fail. -/
def inspectBy (read : Path → Except FileError String) (t : FileTree) (p : Path) : InspectedFile :=
  { inspect t p with
    source? :=
      match read p with
      | .ok text => (Source.analyze? p text).map fun facts => (text, facts)
      | .error _ => none }

lemma inspectBy_readText : inspectBy t.readText t = inspect t := rfl

/-- Off the file, files are read as they are in the tree. How the file itself is read does not matter:
it may fail. -/
def ReadsOff (g : Location) (t : FileTree) (read : Path → Except FileError String) : Prop :=
  ∀ p, t.leadsTo g p = false → read p = t.readText p

lemma readsOff_readText (g : Location) (t : FileTree) : ReadsOff g t t.readText := fun _ _ => rfl

/-- Another file looks the same in both trees. -/
lemma inspectBy_eq (h : Rewritten g t t') (hread : ReadsOff g t read) (hread' : ReadsOff g t' read')
    (hfile : t.isFile p = true) (hp : t.leadsTo g p = false) :
    inspectBy read' t' p = inspectBy read t p := by
  obtain ⟨l, bytes, seconds, hfind⟩ := isFile_iff.mp hfile
  have hinspect : inspect t' p = inspect t p :=
    inspect_congr hfind ((h.find_eq hp).trans hfind)
  have hreads : read' p = read p := by
    rw [hread' p ((h.leadsTo_eq p).trans hp), hread p hp, h.readText_eq hp]
  unfold inspectBy
  rw [hinspect, hreads]

lemma name_summaryWith_inspectBy : ((inspectBy read t p).summaryWith none).name = p.displayName := by
  rw [summaryWith_name]
  exact name_inspect

lemma importance_summaryWith_inspectBy :
    ((inspectBy read t p).summaryWith none).importance = FileName.importance p.displayName := by
  rw [summaryWith_importance]
  exact importance_inspect

/-- A file without facts is described by its name. -/
lemma description_of_no_source (h : source t p = none) :
    ((inspect t p).summaryWith none).description = FileName.description p.displayName := by
  simp only [summaryWith, inspect, h, summarize, FileSummary.ofName]

/-- A file with facts is described by them. -/
lemma description_of_source {text : String} {facts : SourceFacts}
    (h : source t p = some (text, facts)) :
    ((inspect t p).summaryWith none).description = facts.purpose := by
  simp only [summaryWith, inspect, h, Option.getD_none]

end InspectedFile

/-! ## Records that agree -/

/-- The file that contributes an edge: what is exported leads from it, what is imported leads to it. -/
def Dependency.contributor (d : Dependency) : String :=
  if d.kind = .exported then d.source else d.target

lemma Dependency.contributor_of_mem_ofFacts {file : String} {facts : SourceFacts} {d : Dependency}
    (h : d ∈ Dependency.ofFacts file facts) : d.contributor = file := by
  unfold Dependency.ofFacts at h
  rcases List.mem_append.mp h with h | h
  · obtain ⟨i, -, rfl⟩ := List.mem_map.mp h
    have hkind : (Dependency.ofImport file i).kind ≠ .exported := by
      unfold Dependency.ofImport
      dsimp only
      split <;> decide
    exact if_neg hkind
  · obtain ⟨e, -, rfl⟩ := List.mem_map.mp h
    rfl

namespace DirectoryRecord

/-- The sentence on the packages that a record has edges from: three at most, as they come up first. -/
def packageSentence (r : DirectoryRecord) : List String :=
  let packages :=
    (((r.dependencies.filter fun d => d.kind = .package).map (·.source)).eraseDups).take 3
  if packages = [] then [] else ["External dependencies: " ++ ", ".intercalate packages ++ "."]

/-- Two records say the same of everything but the files that are named: the same files are ranked in
the same order, edges that other files contribute are the same, and so is the rest but for the sentence
on packages. -/
structure AgreesOff (named : String → Bool) (r r' : DirectoryRecord) : Prop where
  path : r'.path = r.path
  purpose : r'.purpose = r.purpose
  improvements : r'.improvements = r.improvements
  recentChanges : r'.recentChanges = r.recentChanges
  keyFiles : List.Forall₂ (fun f f' => f'.name = f.name ∧ f'.importance = f.importance ∧
    (named f.name = false → f' = f)) r.keyFiles r'.keyFiles
  dependencies : (r'.dependencies.filter fun d => !named d.contributor) =
    r.dependencies.filter fun d => !named d.contributor
  architecture : r'.architecture = r.architecture ∨ ∃ before after,
    r.architecture = " ".intercalate (before ++ r.packageSentence ++ after) ∧
      r'.architecture = " ".intercalate (before ++ r'.packageSentence ++ after)

end DirectoryRecord

namespace Analyzer

variable {t t' : FileTree} {g : Location} {paths : List Path} {directory p : Path} {named : String → Bool}
  {read read' : Path → Except FileError String}

/-- What a file contributes to the edges. -/
def contributed (file : InspectedFile) : List Dependency :=
  file.sourceSummary?.toList.flatMap fun s => Dependency.ofFacts s.name s.facts

lemma dependencies_plainRecord (files : List InspectedFile) :
    (plainRecord directory files).dependencies = files.flatMap contributed := by
  show (files.filterMap (·.sourceSummary?)).flatMap (fun s => Dependency.ofFacts s.name s.facts) = _
  rw [List.filterMap_eq_flatMap_toList, List.flatMap_assoc]
  rfl

lemma contributor_of_mem_contributed {d : Dependency}
    (h : d ∈ contributed (InspectedFile.inspectBy read t p)) : d.contributor = p.displayName := by
  obtain ⟨s, hs, hd⟩ := List.mem_flatMap.mp h
  obtain ⟨found, -, rfl⟩ := Option.map_eq_some_iff.mp (Option.mem_toList.mp hs)
  rw [Dependency.contributor_of_mem_ofFacts hd]
  exact InspectedFile.name_inspect (t := t)

/-- The packages are the sources of the edges from packages. -/
lemma packages_eq (sources : List SourceSummary) : Directory.packages sources =
    ((((sources.flatMap fun s => Dependency.ofFacts s.name s.facts).filter
      fun d => d.kind = .package).map (·.source)).eraseDups).take 3 := by
  have hedges : ∀ s : SourceSummary, ((Dependency.ofFacts s.name s.facts).filter
      fun d => d.kind = .package).map (·.source) =
        (s.facts.imports.filter (·.isExternal)).map (·.source) := by
    intro s
    have hexports : (s.facts.exports.map (Dependency.ofExport s.name)).filter
        (fun d => d.kind = .package) = [] := by
      rw [List.filter_map, List.map_eq_nil_iff, List.filter_eq_nil_iff]
      exact fun e _ => by simp [Dependency.ofExport]
    have himport : ∀ i : Import, decide ((Dependency.ofImport s.name i).kind = .package) =
        i.isExternal := by
      intro i
      unfold Dependency.ofImport
      cases i.isExternal <;> rfl
    unfold Dependency.ofFacts
    rw [List.filter_append, hexports, List.append_nil, List.filter_map, List.map_map]
    simp only [Function.comp_def, himport]
    rfl
  unfold Directory.packages
  dsimp only
  rw [Text.firstOccurrences_eq_eraseDups, List.filter_flatMap, List.map_flatMap, List.filter_flatMap,
    List.map_flatMap]
  simp only [hedges]
  rfl

/-- The architecture of a record rests on the names of the files and on the packages. -/
lemma architecture_eq (names : List String) : (∃ fixed, ∀ sources,
    Directory.architecture names sources = fixed) ∨ ∃ before after, ∀ sources,
      Directory.architecture names sources = " ".intercalate (before ++
        (if Directory.packages sources = [] then []
          else ["External dependencies: " ++ ", ".intercalate (Directory.packages sources) ++ "."]) ++
        after) := by
  unfold Directory.architecture
  cases Directory.dominantExtension? names with
  | none => exact .inl ⟨_, fun _ => rfl⟩
  | some found =>
    refine .inr ⟨["Primarily ." ++ found.1 ++ " files (" ++ toString found.2 ++ " of "
      ++ toString names.length ++ ")."], (if names.any FileName.isTest then ["Includes tests."] else [])
        ++ (if names.any FileName.isTypeDefinition then ["Includes type definitions."] else []),
      fun sources => ?_⟩
    simp only [List.isEmpty_iff, List.append_assoc]
    rfl

lemma packageSentence_plainRecord (files : List InspectedFile) :
    (plainRecord directory files).packageSentence =
      if Directory.packages (files.filterMap (·.sourceSummary?)) = [] then []
      else ["External dependencies: " ++
        ", ".intercalate (Directory.packages (files.filterMap (·.sourceSummary?))) ++ "."] := by
  rw [packages_eq]
  rfl

lemma words_plainRecord (directory : Path) (files : List InspectedFile) {names : List String}
    (hnames : (files.map (·.summaryWith none)).map (·.name) = names) :
    (plainRecord directory files).purpose = Directory.purpose directory names ∧
      (plainRecord directory files).improvements = Directory.improvements names ∧
      (plainRecord directory files).architecture =
        Directory.architecture names (files.filterMap (·.sourceSummary?)) := by
  simp only [plainRecord, baseRecord, hnames, and_self]

/-- A record knows the files by their names. -/
lemma names_inspectBy (read : Path → Except FileError String) (t : FileTree) (paths : List Path) :
    ((paths.map (InspectedFile.inspectBy read t)).map (·.summaryWith none)).map (·.name) =
      paths.map (·.displayName) := by
  rw [List.map_map, List.map_map]
  exact List.map_congr_left fun p _ => InspectedFile.name_summaryWith_inspectBy

lemma keyFiles_plainRecord (paths : List Path) :
    (plainRecord directory (paths.map (InspectedFile.inspectBy read t))).keyFiles =
      ((paths.mergeSort fun p q => FileName.importance q.displayName ≤
        FileName.importance p.displayName).take FileSummary.rankLimit).map fun p =>
          (InspectedFile.inspectBy read t p).summaryWith none := by
  show FileSummary.rank ((paths.map _).map _) = _
  rw [List.map_map]
  exact rank_map paths _ _ fun p => InspectedFile.importance_summaryWith_inspectBy

/-- Records of files that look the same, but for those that are named, agree but for these. -/
theorem plainRecord_agreesOff (hagree : ∀ p ∈ paths, named p.displayName = false →
      InspectedFile.inspectBy read' t' p = InspectedFile.inspectBy read t p) :
    DirectoryRecord.AgreesOff named
      (plainRecord directory (paths.map (InspectedFile.inspectBy read t)))
      (plainRecord directory (paths.map (InspectedFile.inspectBy read' t'))) := by
  obtain ⟨hpurpose, himprovements, harchitecture⟩ :=
    words_plainRecord directory _ (names_inspectBy read t paths)
  obtain ⟨hpurpose', himprovements', harchitecture'⟩ :=
    words_plainRecord directory _ (names_inspectBy read' t' paths)
  constructor
  case path => rfl
  case purpose => rw [hpurpose, hpurpose']
  case improvements => rw [himprovements, himprovements']
  case recentChanges => rfl
  case keyFiles =>
    rw [keyFiles_plainRecord, keyFiles_plainRecord, List.forall₂_map_left_iff,
      List.forall₂_map_right_iff, List.forall₂_same]
    intro p hp
    have hmem : p ∈ paths := List.mem_mergeSort.mp (List.mem_of_mem_take hp)
    rw [InspectedFile.name_summaryWith_inspectBy, InspectedFile.name_summaryWith_inspectBy,
      InspectedFile.importance_summaryWith_inspectBy,
      InspectedFile.importance_summaryWith_inspectBy]
    exact ⟨rfl, rfl, fun hfree => by rw [hagree p hmem hfree]⟩
  case dependencies =>
    rw [dependencies_plainRecord, dependencies_plainRecord, List.flatMap_map, List.flatMap_map,
      List.filter_flatMap, List.filter_flatMap]
    refine List.flatMap_congr fun p hp => ?_
    cases hnamed : named p.displayName with
    | false => rw [hagree p hp hnamed]
    | true =>
      -- all that a named file contributes is left out
      have hnone : ∀ {read : Path → Except FileError String} {t : FileTree},
          (contributed (InspectedFile.inspectBy read t p)).filter
            (fun d => !named d.contributor) = [] := by
        intro read t
        refine List.filter_eq_nil_iff.mpr fun d hd => ?_
        rw [contributor_of_mem_contributed hd, hnamed]
        decide
      rw [hnone, hnone]
  case architecture =>
    rw [harchitecture, harchitecture', packageSentence_plainRecord, packageSentence_plainRecord]
    rcases architecture_eq (paths.map (·.displayName)) with ⟨fixed, hfixed⟩ | ⟨before, after, hsentence⟩
    · exact .inl ((hfixed _).trans (hfixed _).symm)
    · exact .inr ⟨before, after, hsentence _, hsentence _⟩

/-! ## Records of trees that differ in one file -/

/-- The record of a directory whose files are read in some way, when nobody is asked. -/
def recordBy (a : Analyzer) (read : Path → Except FileError String) (t : FileTree)
    (directory : Path) : Except Failure DirectoryRecord :=
  (a.visibleFiles t directory).map fun paths =>
    plainRecord directory (paths.map (InspectedFile.inspectBy read t))

variable {c : Configuration} {filter : IgnoreFilter}

/-- An analysis that asks nobody reads the files as they are in the tree. -/
lemma record_eq_ok_iff {x : DirectoryRecord × List Question} :
    (offline c filter).record t directory = .ok x ↔
      (offline c filter).recordBy t.readText t directory = .ok x.1 ∧ x.2 = [] := by
  rw [record_offline, recordBy]
  cases (offline c filter).visibleFiles t directory with
  | error f => exact iff_of_false nofun nofun
  | ok paths =>
    simp only [Except.map, Except.ok.injEq]
    exact ⟨fun heq => heq ▸ ⟨rfl, rfl⟩, fun ⟨h1, h2⟩ => Prod.ext h1 h2.symm⟩

/-- The same files are visible in both trees, or the directory cannot be listed in either. -/
lemma visibleFiles_rewritten (ht : t.WellFormed) (ht' : t'.WellFormed) (h : Rewritten g t t')
    (a : Analyzer) (directory : Path) :
    a.visibleFiles t' directory = a.visibleFiles t directory := by
  by_cases hd : ∃ l, t.find directory = .ok (l, .directory)
  · obtain ⟨l, hd⟩ := hd
    have hd' := h.find_directory hd
    have hperm : (a.shownNames t' directory l).Perm (a.shownNames t directory l) := by
      unfold shownNames
      simp only [h.isFile_eq]
      exact (h.perm_children ht ht' l).filter _
    rw [visibleFiles_eq hd, visibleFiles_eq hd', mergeSort_eq_of_perm hperm]
  · have hlist := h.listDirectory_eq hd
    simp only [visibleFiles, h.isFile_eq, hlist]

/-- Where a visible file leads, in terms of its name. -/
lemma join_displayName_of_visible (ht : t.WellFormed) {a : Analyzer}
    (hpaths : a.visibleFiles t directory = .ok paths) (hp : p ∈ paths) :
    directory.join ⟨p.displayName⟩ = p ∧ t.isFile p = true := by
  obtain ⟨l, hd⟩ : ∃ l, t.find directory = .ok (l, .directory) := by
    cases hlist : t.listDirectory directory with
    | ok names => exact find_of_listDirectory hlist
    | error reason =>
      unfold visibleFiles at hpaths
      rw [hlist] at hpaths
      cases hpaths
  rw [visibleFiles_eq hd] at hpaths
  obtain rfl := Except.ok.inj hpaths
  obtain ⟨name, hname, rfl⟩ := List.mem_map.mp hp
  have hvisible := mem_shownNames_iff_isVisible.mp (List.mem_mergeSort.mp hname)
  obtain ⟨e, he⟩ := Option.isSome_iff_exists.mp (mem_children_iff.mp hvisible.listed)
  have hplain := (ht.isEntryName he name (by simp)).toIsPlainName
  rw [Path.displayName_join directory hplain]
  exact ⟨rfl, hvisible.isFile⟩

section
variable (ht : t.WellFormed) (ht' : t'.WellFormed) (h : Rewritten g t t')
include ht ht' h

/-- However the file is read, records agree but for what leads to it. -/
lemma recordBy_rewritten (hread : InspectedFile.ReadsOff g t read)
    (hread' : InspectedFile.ReadsOff g t' read') (a : Analyzer) (directory : Path) :
    ((∃ r, a.recordBy read t directory = .ok r) ↔ ∃ r', a.recordBy read' t' directory = .ok r') ∧
      ∀ r r', a.recordBy read t directory = .ok r → a.recordBy read' t' directory = .ok r' →
        r.AgreesOff (fun name => t.leadsTo g (directory.join ⟨name⟩)) r' := by
  unfold recordBy
  rw [visibleFiles_rewritten ht ht' h]
  cases hpaths : a.visibleFiles t directory with
  | error f => exact ⟨iff_of_false nofun nofun, nofun⟩
  | ok paths =>
    refine ⟨iff_of_true ⟨_, rfl⟩ ⟨_, rfl⟩, fun r r' hr hr' => ?_⟩
    obtain rfl := Except.ok.inj hr
    obtain rfl := Except.ok.inj hr'
    refine plainRecord_agreesOff fun p hp hoff => ?_
    obtain ⟨hjoin, hfile⟩ := join_displayName_of_visible ht hpaths hp
    rw [hjoin] at hoff
    exact InspectedFile.inspectBy_eq h hread hread' hfile hoff

/-- Whatever a file holds, a directory has a record in both trees or in neither. The records agree but
for the entries and the edges of the files that lead to it: the file and links to it. That the file
cannot be read makes no difference. -/
theorem record_rewritten (c : Configuration) (filter : IgnoreFilter) (directory : Path) :
    (∀ l name e, t.find directory = .ok (l, .directory) → t.entryAt? (l ++ [name]) = some e →
      (∀ target, e ≠ .link target) → l ++ [name] ≠ g →
        t.leadsTo g (directory.join ⟨name⟩) = false) ∧
    ((∃ r, (offline c filter).record t directory = .ok r) ↔
      ∃ r', (offline c filter).record t' directory = .ok r') ∧
    (∀ r r', (offline c filter).record t directory = .ok r →
      (offline c filter).record t' directory = .ok r' →
        r.1.AgreesOff (fun name => t.leadsTo g (directory.join ⟨name⟩)) r'.1) ∧
    ∀ read read', InspectedFile.ReadsOff g t read → InspectedFile.ReadsOff g t' read' →
      ((∃ r, (offline c filter).recordBy read t directory = .ok r) ↔
        ∃ r', (offline c filter).recordBy read' t' directory = .ok r') ∧
      ∀ r r', (offline c filter).recordBy read t directory = .ok r →
        (offline c filter).recordBy read' t' directory = .ok r' →
          r.AgreesOff (fun name => t.leadsTo g (directory.join ⟨name⟩)) r' := by
  obtain ⟨hboth, hagree⟩ := recordBy_rewritten ht ht' h (InspectedFile.readsOff_readText g t)
    (InspectedFile.readsOff_readText g t') (offline c filter) directory
  refine ⟨fun l name e hd he hlink hne => leadsTo_eq_false ht hd he hlink hne, ⟨?_, ?_⟩,
    fun r r' hr hr' => hagree _ _ (record_eq_ok_iff.mp hr).1 (record_eq_ok_iff.mp hr').1,
    fun read read' hread hread' => recordBy_rewritten ht ht' h hread hread' _ directory⟩
  · rintro ⟨r, hr⟩
    obtain ⟨r', hr'⟩ := hboth.mp ⟨_, (record_eq_ok_iff.mp hr).1⟩
    exact ⟨(r', []), record_eq_ok_iff.mpr ⟨hr', rfl⟩⟩
  · rintro ⟨r', hr'⟩
    obtain ⟨r, hr⟩ := hboth.mpr ⟨_, (record_eq_ok_iff.mp hr').1⟩
    exact ⟨(r, []), record_eq_ok_iff.mpr ⟨hr, rfl⟩⟩

end

/-- Two source files, of which the first may hold anything. -/
def twoSources (bytes : ByteArray) (seconds : Int64) : FileTree where
  entries := [(["a.ts"], .file bytes seconds), (["b.ts"], .file "import './a'".toUTF8 2)]

/-- The first file is a source file in one tree and no text in the other, where it cannot be read
either. -/
theorem record_twoSources :
    (twoSources "export const a = 1".toUTF8 1).WellFormed ∧ (twoSources ⟨#[0xff]⟩ 9).WellFormed ∧
      Rewritten ["a.ts"] (twoSources "export const a = 1".toUTF8 1) (twoSources ⟨#[0xff]⟩ 9) ∧
      (twoSources "export const a = 1".toUTF8 1).leadsTo ["a.ts"] ⟨"/b.ts"⟩ = false ∧
      ∃ r r' r'', (offline {} ⟨⟨"/"⟩, []⟩).record (twoSources "export const a = 1".toUTF8 1) ⟨"/"⟩ =
          .ok (r, []) ∧
        (offline {} ⟨⟨"/"⟩, []⟩).record (twoSources ⟨#[0xff]⟩ 9) ⟨"/"⟩ = .ok (r', []) ∧
        (offline {} ⟨⟨"/"⟩, []⟩).recordBy (fun p =>
            if (twoSources ⟨#[0xff]⟩ 9).leadsTo ["a.ts"] p then .error .missing
            else (twoSources ⟨#[0xff]⟩ 9).readText p) (twoSources ⟨#[0xff]⟩ 9) ⟨"/"⟩ = .ok r'' ∧
        r.AgreesOff (fun name => (twoSources "export const a = 1".toUTF8 1).leadsTo ["a.ts"]
          ((⟨"/"⟩ : Path).join ⟨name⟩)) r' ∧
        r.AgreesOff (fun name => (twoSources "export const a = 1".toUTF8 1).leadsTo ["a.ts"]
          ((⟨"/"⟩ : Path).join ⟨name⟩)) r'' := by
  have ht : (twoSources "export const a = 1".toUTF8 1).WellFormed := by decide
  have ht' : (twoSources ⟨#[0xff]⟩ 9).WellFormed := by decide
  have hrewritten : Rewritten ["a.ts"] (twoSources "export const a = 1".toUTF8 1)
      (twoSources ⟨#[0xff]⟩ 9) :=
    rewritten_of_entries (by decide) rfl rfl rfl
  obtain ⟨hother, hboth, hagree, hreading⟩ :=
    record_rewritten ht ht' hrewritten {} ⟨⟨"/"⟩, []⟩ ⟨"/"⟩
  have hb : (twoSources "export const a = 1".toUTF8 1).leadsTo ["a.ts"] ⟨"/b.ts"⟩ = false :=
    hother [] "b.ts" _ (find_slash _) rfl (by simp) (by decide)
  obtain ⟨⟨r, questions⟩, hr⟩ : ∃ r, (offline {} ⟨⟨"/"⟩, []⟩).record
      (twoSources "export const a = 1".toUTF8 1) ⟨"/"⟩ = .ok r :=
    exists_record_iff.mpr ⟨[], find_slash _⟩
  obtain ⟨⟨r', questions'⟩, hr'⟩ := hboth.mp ⟨_, hr⟩
  obtain rfl : questions = [] := (record_path hr).2
  obtain rfl : questions' = [] := (record_path hr').2
  obtain ⟨hreads, hagree'⟩ := hreading _ (fun p =>
      if (twoSources ⟨#[0xff]⟩ 9).leadsTo ["a.ts"] p then .error .missing
      else (twoSources ⟨#[0xff]⟩ 9).readText p)
    (InspectedFile.readsOff_readText _ _) (fun p hp => by simp [hp])
  have hplain := (record_eq_ok_iff.mp hr).1
  obtain ⟨r'', hr''⟩ := hreads.mp ⟨r, hplain⟩
  exact ⟨ht, ht', hrewritten, hb, r, r', r'', hr, hr', hr'', hagree _ _ hr hr',
    hagree' _ _ hplain hr''⟩

/-- A source file that may hold anything, and a link to it. -/
def linkedSource (bytes : ByteArray) : FileTree where
  entries := [(["a.ts"], .file bytes 1), (["b.ts"], .link "a.ts")]

section
variable (bytes : ByteArray)

lemma find_linkedSource : (linkedSource bytes).find ⟨"/a.ts"⟩ = .ok (["a.ts"], .file bytes 1) ∧
    (linkedSource bytes).find ⟨"/b.ts"⟩ = .ok (["a.ts"], .file bytes 1) := by
  have hadmitted : (⟨"/a.ts"⟩ : Path).IsAdmitted ∧ (⟨"/b.ts"⟩ : Path).IsAdmitted := by decide
  have hsegments : segments "/a.ts" = ["a.ts"] ∧ segments "/b.ts" = ["b.ts"] ∧
      segments "a.ts" = ["a.ts"] := by decide
  have hstart : startOf "a.ts" [] = [] := rfl
  have hb : (linkedSource bytes).entryAt? ([] ++ ["b.ts"]) = some (.link "a.ts") := rfl
  have hfile : (linkedSource bytes).entryAt? ["a.ts"] = some (.file bytes 1) := rfl
  have ha : ∀ target, (linkedSource bytes).entryAt? ([] ++ ["a.ts"]) ≠ some (.link target) := nofun
  have hwalk : ∀ links, (linkedSource bytes).walk links [] ["a.ts"] = .ok ["a.ts"] := by
    intro links
    rw [walk_of_entry rfl (by decide) (by decide) (by decide) ha, walk_nil, List.nil_append]
  refine ⟨find_eq_ok_iff.mpr ⟨?_, hfile⟩, find_eq_ok_iff.mpr ⟨?_, hfile⟩⟩
  · rw [locate_of_admitted _ hadmitted.1, startOf_of_isAbsolute (by decide), hsegments.1, hwalk]
  · rw [locate_of_admitted _ hadmitted.2, startOf_of_isAbsolute (by decide), hsegments.2.1, linkLimit,
      walk_of_link rfl (by decide) (by decide) (by decide) hb, hsegments.2.2, hstart,
      List.append_nil, hwalk]

/-- The file and the link are both ranked. -/
lemma exists_record_linkedSource : ∃ r,
    (offline {} ⟨⟨"/"⟩, []⟩).record (linkedSource bytes) ⟨"/"⟩ = .ok (r, []) ∧
      r.keyFiles = [⟨"/a.ts"⟩, ⟨"/b.ts"⟩].map fun p =>
        (InspectedFile.inspect (linkedSource bytes) p).summaryWith none := by
  obtain ⟨ha, hb⟩ := find_linkedSource bytes
  have hfiles : (linkedSource bytes).isFile ⟨"/a.ts"⟩ = true ∧
      (linkedSource bytes).isFile ⟨"/b.ts"⟩ = true :=
    ⟨isFile_iff.mpr ⟨_, _, _, ha⟩, isFile_iff.mpr ⟨_, _, _, hb⟩⟩
  have hjoin : (⟨"/"⟩ : Path).join ⟨"a.ts"⟩ = ⟨"/a.ts"⟩ ∧ (⟨"/"⟩ : Path).join ⟨"b.ts"⟩ = ⟨"/b.ts"⟩ := by
    decide
  have hvisible : (offline {} ⟨⟨"/"⟩, []⟩).visibleFiles (linkedSource bytes) ⟨"/"⟩ =
      .ok [⟨"/a.ts"⟩, ⟨"/b.ts"⟩] := by
    have hshown : (offline {} ⟨⟨"/"⟩, []⟩).shownNames (linkedSource bytes) ⟨"/"⟩ [] =
        ["a.ts", "b.ts"] := by
      have hchildren : (linkedSource bytes).children [] = ["a.ts", "b.ts"] := rfl
      have hincluded : (offline {} ⟨⟨"/"⟩, []⟩).filter.includesPath ⟨"/a.ts"⟩ false = true ∧
          (offline {} ⟨⟨"/"⟩, []⟩).filter.includesPath ⟨"/b.ts"⟩ false = true := by decide
      have hhidden : FileName.isHidden "a.ts" = false ∧ FileName.isHidden "b.ts" = false := by decide
      unfold shownNames
      rw [hchildren]
      simp only [List.filter_cons, hjoin, hfiles, hincluded, hhidden, Bool.not_false, Bool.and_self,
        if_true, List.filter_nil]
    have hsorted : ["a.ts", "b.ts"].Pairwise fun m n => decide (m ≤ n) = true := by decide
    rw [visibleFiles_eq (find_slash _), hshown, List.mergeSort_of_pairwise hsorted, List.map_cons,
      List.map_cons, List.map_nil, hjoin.1, hjoin.2]
  refine ⟨plainRecord ⟨"/"⟩
    ([⟨"/a.ts"⟩, ⟨"/b.ts"⟩].map (InspectedFile.inspect (linkedSource bytes))), ?_, ?_⟩
  · rw [record_offline, hvisible]
    rfl
  · rw [← InspectedFile.inspectBy_readText, keyFiles_plainRecord, List.mergeSort_of_pairwise]
    · rfl
    · decide +kernel

end

/-- The facts of an empty text describe the link. -/
lemma description_linkedSource_text :
    ((InspectedFile.inspect (linkedSource "".toUTF8) ⟨"/b.ts"⟩).summaryWith none).description =
      "Module implementation" := by
  have htext : String.fromUTF8? "".toUTF8 = some "" := by decide
  have hfacts : (Source.analyze? ⟨"/b.ts"⟩ "").map (·.purpose) = some "Module implementation" := by
    decide +kernel
  obtain ⟨facts, hanalyze, hpurpose⟩ := Option.map_eq_some_iff.mp hfacts
  have hsource : InspectedFile.source (linkedSource "".toUTF8) ⟨"/b.ts"⟩ = some ("", facts) := by
    unfold InspectedFile.source
    rw [readText_of_find (find_linkedSource "".toUTF8).2, htext]
    simp only [hanalyze, Option.map_some]
  exact (InspectedFile.description_of_source hsource).trans hpurpose

/-- Where there is no text, a file is described by its name. -/
lemma description_linkedSource_bytes
    (hp : (linkedSource ⟨#[0xff]⟩).find p = .ok (["a.ts"], .file ⟨#[0xff]⟩ 1)) :
    ((InspectedFile.inspect (linkedSource ⟨#[0xff]⟩) p).summaryWith none).description =
      FileName.description p.displayName := by
  have hnone : String.fromUTF8? ⟨#[0xff]⟩ = none := by decide
  refine InspectedFile.description_of_no_source ?_
  unfold InspectedFile.source
  rw [readText_of_find hp, hnone]

/-- What the file holds changes the entry of the link to it. -/
theorem record_linkedSource :
    (linkedSource "".toUTF8).WellFormed ∧ (linkedSource ⟨#[0xff]⟩).WellFormed ∧
      Rewritten ["a.ts"] (linkedSource "".toUTF8) (linkedSource ⟨#[0xff]⟩) ∧
      ∃ r r', (offline {} ⟨⟨"/"⟩, []⟩).record (linkedSource "".toUTF8) ⟨"/"⟩ = .ok (r, []) ∧
        (offline {} ⟨⟨"/"⟩, []⟩).record (linkedSource ⟨#[0xff]⟩) ⟨"/"⟩ = .ok (r', []) ∧
        ∃ f ∈ r.keyFiles, f.name = "b.ts" ∧ f ∉ r'.keyFiles := by
  obtain ⟨r, hr, hfiles⟩ := exists_record_linkedSource "".toUTF8
  obtain ⟨r', hr', hfiles'⟩ := exists_record_linkedSource ⟨#[0xff]⟩
  refine ⟨by decide, by decide, rewritten_of_entries (by decide) rfl rfl rfl, r, r', hr, hr',
    (InspectedFile.inspect (linkedSource "".toUTF8) ⟨"/b.ts"⟩).summaryWith none, ?_, ?_, ?_⟩
  · simp [hfiles]
  · rw [InspectedFile.summaryWith_name, InspectedFile.name_inspect]
    decide
  · -- neither name of the file describes it as its text did
    have ha : FileName.description (⟨"/a.ts"⟩ : Path).displayName ≠ "Module implementation" := by
      decide +kernel
    have hb : FileName.description (⟨"/b.ts"⟩ : Path).displayName ≠ "Module implementation" := by
      decide +kernel
    rw [hfiles', List.map_cons, List.map_cons, List.map_nil, List.mem_cons, List.mem_singleton]
    rintro (heq | heq)
    · have hdescription := congrArg FileSummary.description heq
      rw [description_linkedSource_text,
        description_linkedSource_bytes (find_linkedSource _).1] at hdescription
      exact ha hdescription.symm
    · have hdescription := congrArg FileSummary.description heq
      rw [description_linkedSource_text,
        description_linkedSource_bytes (find_linkedSource _).2] at hdescription
      exact hb hdescription.symm

end Analyzer

end DirectoryNotes
