import DirectoryNotes.Proofs.Directory.Assistance
import DirectoryNotes.Proofs.Document.Write
import DirectoryNotes.Proofs.FileName
import DirectoryNotes.Proofs.FileTree.FarDown
import DirectoryNotes.Proofs.FileTree.Relisting
import DirectoryNotes.Proofs.Record.Rank
import Mathlib.Data.List.Sort

/-!
# What a record sums up

A record sums up the visible files of its directory, all of them and nothing else. Neither the
assistant nor version control has a part in that, and the order in which the directory is listed has
none in the record at all:

* `Analyzer.IsVisible`: which names a record is about;
* `summariesOf_names`, `graded_of_mem_summariesOf`: the files as a record sees them;
* `Analyzer.SumsUp`: what a record says of the visible files;
* `record_relisted`: another order of listing gives the same record;
* `record_sums_up`: both together, for every directory that can be listed. What counts as a file is
  told by its path from the directory as that is given: `record_misses_long_path` shows one that is
  there and out of reach.
-/

namespace DirectoryNotes

open FileTree Text

variable {t t' : FileTree} {directory : Path} {l : Location} {a : Analyzer} {names : List String}

/-! ## One file -/

namespace InspectedFile

variable {file : InspectedFile} {p : Path} {words : Option String}

lemma name_inspect : (inspect t p).summary.name = p.displayName := by
  simp only [inspect, summarize, FileSummary.ofName]

lemma importance_inspect :
    (inspect t p).summary.importance = FileName.importance p.displayName := by
  simp only [inspect, summarize, FileSummary.ofName]

lemma functions_inspect : (inspect t p).summary.functions = FileName.topics p.displayName := by
  simp only [inspect, summarize, FileSummary.ofName]

lemma sourceSummary?_inspect : (inspect t p).sourceSummary? =
    (source t p).map fun found => ⟨p.displayName, found.2⟩ := by
  simp only [sourceSummary?, inspect, summarize, FileSummary.ofName]

/-- A file has one to three functions, whether they are taken from its name or from its text. -/
lemma length_functions_summaryWith : 1 ≤ ((inspect t p).summaryWith words).functions.length ∧
    ((inspect t p).summaryWith words).functions.length ≤ 3 := by
  have htopics : 1 ≤ (inspect t p).summary.functions.length ∧
      (inspect t p).summary.functions.length ≤ 3 := by
    rw [functions_inspect]
    exact FileName.length_topics p.displayName
  unfold summaryWith
  split
  · exact htopics
  · next text facts _ =>
    dsimp only
    split
    · exact htopics
    · next hsome =>
      refine ⟨List.length_pos_iff.mpr fun hnil => hsome (List.isEmpty_iff.mpr hnil), ?_⟩
      rw [List.length_map]
      exact List.length_take_le functionLimit _

/-- What is known about a file is the same in trees that differ in their order only. -/
lemma inspect_relisted (ht : t.WellFormed) (h : Relisted t t') (p : Path) :
    inspect t' p = inspect t p := by
  have hsame := h.sameEntries ht
  have hmodified : t'.modified p = t.modified p := by
    unfold FileTree.modified
    rw [hsame.find_eq, h.clock]
  unfold inspect summarize modifiedSecond source
  rw [hmodified, hsame.readText_eq]

end InspectedFile

namespace Analyzer

/-! ## The visible files -/

/-- A name that a directory is listed with is that of a visible file: the directory's path leads to a
file when the name is joined to it, links followed, and the file is not hidden and is one that the filter
includes. -/
structure IsVisible (a : Analyzer) (t : FileTree) (directory : Path) (names : List String)
    (name : String) : Prop where
  listed : name ∈ names
  isFile : t.isFile (directory.join ⟨name⟩) = true
  shown : FileName.isHidden name = false
  included : a.filter.includesPath (directory.join ⟨name⟩) false = true

lemma mem_shownNames_iff_isVisible {name : String} :
    name ∈ a.shownNames t directory l ↔ a.IsVisible t directory (t.children l) name := by
  unfold shownNames
  rw [List.mem_filter, Bool.and_eq_true, Bool.and_eq_true, Bool.not_eq_true']
  constructor
  · rintro ⟨hlisted, ⟨hshown, hfile⟩, hincluded⟩
    exact ⟨hlisted, hfile, hshown, hincluded⟩
  · rintro ⟨hlisted, hfile, hshown, hincluded⟩
    exact ⟨hlisted, ⟨hshown, hfile⟩, hincluded⟩

/-- The files of a directory that have these names, as an analysis looks at them. -/
def filesAt (t : FileTree) (directory : Path) (names : List String) : List InspectedFile :=
  (names.map fun name => directory.join ⟨name⟩).map (InspectedFile.inspect t)

/-- What a file of this name contributes to the dependencies: something only if it is a source file
that can be read. -/
def dependenciesAt (t : FileTree) (directory : Path) (name : String) : List Dependency :=
  ((InspectedFile.source t (directory.join ⟨name⟩)).map fun found =>
    Dependency.ofFacts name found.2).getD []

section
variable (hnames : ∀ name ∈ names, IsPlainName name)
include hnames

lemma name_filesAt : (filesAt t directory names).map (·.summary.name) = names := by
  unfold filesAt
  rw [List.map_map, List.map_map]
  refine (List.map_congr_left fun name hmem => ?_).trans (List.map_id names)
  rw [Function.comp_apply, Function.comp_apply, InspectedFile.name_inspect,
    Path.displayName_join directory (hnames name hmem), id_eq]

lemma dependencies_filesAt :
    ((filesAt t directory names).filterMap (·.sourceSummary?)).flatMap
        (fun s => Dependency.ofFacts s.name s.facts) =
      names.flatMap (dependenciesAt t directory) := by
  unfold filesAt
  induction names with
  | nil => rfl
  | cons name rest ih =>
    have hsummary : (InspectedFile.inspect t (directory.join ⟨name⟩)).sourceSummary? =
        (InspectedFile.source t (directory.join ⟨name⟩)).map fun found => ⟨name, found.2⟩ := by
      rw [InspectedFile.sourceSummary?_inspect,
        Path.displayName_join directory (hnames name List.mem_cons_self)]
    rw [List.map_cons, List.map_cons, List.flatMap_cons,
      ← ih fun other hmem => hnames other (List.mem_cons_of_mem _ hmem)]
    unfold dependenciesAt
    -- a file without facts is left out on both sides
    cases hsource : InspectedFile.source t (directory.join ⟨name⟩) with
    | none =>
      rw [hsource, Option.map_none] at hsummary
      rw [List.filterMap_cons_none hsummary, Option.map_none, Option.getD_none, List.nil_append]
    | some found =>
      rw [hsource, Option.map_some] at hsummary
      rw [List.filterMap_cons_some hsummary, List.flatMap_cons, Option.map_some, Option.getD_some]

/-- With or without the assistant, a record sees the files under their names. -/
lemma summariesOf_names : (a.summariesOf (filesAt t directory names)).map (·.name) = names := by
  have hdescribed : (fun x : InspectedFile × Option (Reply String) => (describedBy x.1 x.2).name) =
      fun x => x.1.summary.name := by
    funext x
    exact InspectedFile.summaryWith_name
  rw [summariesOf_eq, List.map_map, Function.comp_def, hdescribed]
  exact (map_zip_repliesOn fun file => file.summary.name).trans (name_filesAt hnames)

end

/-- A file as a record sees it has the grade of its name and one to three functions. -/
lemma graded_of_mem_summariesOf {f : FileSummary}
    (h : f ∈ a.summariesOf (filesAt t directory names)) :
    f.importance = FileName.importance f.name ∧ 1 ≤ f.functions.length ∧ f.functions.length ≤ 3 := by
  rw [summariesOf_eq] at h
  obtain ⟨x, hx, rfl⟩ := List.mem_map.mp h
  obtain ⟨path, -, hpath⟩ := List.mem_map.mp (List.of_mem_zip hx).1
  have hname : (describedBy x.1 x.2).name = path.displayName := by
    rw [← InspectedFile.name_inspect (t := t), hpath]
    exact InspectedFile.summaryWith_name
  have himportance : (describedBy x.1 x.2).importance = FileName.importance path.displayName := by
    rw [← InspectedFile.importance_inspect (t := t), hpath]
    exact InspectedFile.summaryWith_importance
  have hfunctions : (describedBy x.1 x.2).functions = (x.1.summaryWith none).functions := rfl
  rw [hname, himportance, hfunctions, ← hpath]
  exact ⟨rfl, InspectedFile.length_functions_summaryWith⟩

/-! ## The order of listing -/

/-- The repository of a directory is the same in trees with the same entries. -/
lemma recentChanges_sameEntries (h : SameEntries t t') :
    a.recentChanges t' directory = a.recentChanges t directory := by
  unfold recentChanges repositoryRoot?
  simp only [h.reaches_eq]

/-- A directory has the same record in whichever order its entries are listed. -/
theorem record_relisted (ht : t.WellFormed) (h : Relisted t t')
    (hd : t.find directory = .ok (l, .directory)) : a.record t' directory = a.record t directory := by
  have hsame := h.sameEntries ht
  have hd' : t'.find directory = .ok (l, .directory) := (hsame.find_eq directory).trans hd
  have hperm : (a.shownNames t' directory l).Perm (a.shownNames t directory l) := by
    unfold shownNames
    simp only [hsame.isFile_eq]
    exact (h.children l).filter _
  refine record_of_visible ?_ ?_ ?_
  · rw [visibleFiles_eq hd, visibleFiles_eq hd', mergeSort_eq_of_perm hperm]
  · exact fun paths _ => List.map_congr_left fun p _ => InspectedFile.inspect_relisted ht h p
  · exact recentChanges_sameEntries hsame

/-! ## The record -/

/-- What a record says of the visible files of its directory. The files that it keeps are those that
no other outranks, and the dependencies are those of all of them. -/
structure SumsUp (t : FileTree) (directory : Path) (visible : List String) (r : DirectoryRecord) :
    Prop where
  path : r.path = directory
  length : r.keyFiles.length = min 10 visible.length
  nodup : (r.keyFiles.map (·.name)).Nodup
  kept : ∀ f ∈ r.keyFiles, f.name ∈ visible
  ordered : r.keyFiles.Pairwise fun f g => g.importance < f.importance ∨
    f.importance = g.importance ∧ bytesOf f.name < bytesOf g.name
  omitted : ∀ name ∈ visible, name ∉ r.keyFiles.map (·.name) → ∀ f ∈ r.keyFiles,
    FileName.importance name < f.importance ∨
      f.importance = FileName.importance name ∧ bytesOf f.name < bytesOf name
  graded : ∀ f ∈ r.keyFiles, f.importance = FileName.importance f.name ∧
    f.importance ∈ ([3, 5, 7, 10] : List UInt8)
  functions : ∀ f ∈ r.keyFiles, 1 ≤ f.functions.length ∧ f.functions.length ≤ 3
  changes : r.recentChanges.length ≤ 5 ∧ ∀ c ∈ r.recentChanges, c.files = []
  dependencies : r.dependencies = visible.flatMap (dependenciesAt t directory)

/-- Of few files none is left out. -/
lemma SumsUp.perm_names {r : DirectoryRecord} (h : SumsUp t directory names r)
    (hfew : names.length ≤ 10) : (r.keyFiles.map (·.name)).Perm names := by
  have hsubset : r.keyFiles.map (·.name) ⊆ names := by
    intro name hname
    obtain ⟨f, hf, rfl⟩ := List.mem_map.mp hname
    exact h.kept f hf
  refine (List.subperm_of_subset h.nodup hsubset).perm_of_length_le ?_
  rw [List.length_map, h.length, Nat.min_eq_right hfew]

lemma recentChanges_bounded : (a.recentChanges t directory).length ≤ 5 ∧
    ∀ c ∈ a.recentChanges t directory, c.files = [] := by
  unfold recentChanges
  split
  · simp
  · refine ⟨?_, ?_⟩
    · rw [List.length_map]
      exact List.length_take_le changeLimit _
    · intro c hc
      obtain ⟨commit, -, rfl⟩ := List.mem_map.mp hc
      rfl

/-- A ranking of the files of names in order, with the rest of a record, sums them up. -/
lemma sumsUp_of_rank {r : DirectoryRecord} (hnames : ∀ name ∈ names, IsPlainName name)
    (hsorted : names.Pairwise fun m n => bytesOf m < bytesOf n) (hpath : r.path = directory)
    (hfiles : r.keyFiles = FileSummary.rank (a.summariesOf (filesAt t directory names)))
    (hchanges : r.recentChanges = a.recentChanges t directory)
    (hdependencies : r.dependencies = names.flatMap (dependenciesAt t directory)) :
    SumsUp t directory names r := by
  have hall : (a.summariesOf (filesAt t directory names)).map (·.name) = names :=
    summariesOf_names hnames
  have hgraded : ∀ f ∈ r.keyFiles, f.importance = FileName.importance f.name ∧
      1 ≤ f.functions.length ∧ f.functions.length ≤ 3 := by
    rw [hfiles]
    exact fun f hf => graded_of_mem_summariesOf (FileSummary.mem_of_mem_rank hf)
  -- the files were given in the order of their names, which a ranking keeps among equals
  have hgiven : (a.summariesOf (filesAt t directory names)).Pairwise fun f g =>
      bytesOf f.name < bytesOf g.name := by
    rw [← List.pairwise_map (f := FileSummary.name) (R := fun m n => bytesOf m < bytesOf n), hall]
    exact hsorted
  constructor
  case path => exact hpath
  case length =>
    rw [hfiles, FileSummary.length_rank, ← List.length_map (f := FileSummary.name), hall]
  case nodup =>
    rw [hfiles]
    refine FileSummary.nodup_names_rank ?_
    rw [hall]
    refine hsorted.imp ?_
    rintro m n hlt rfl
    exact List.lt_irrefl _ hlt
  case kept =>
    intro f hf
    rw [hfiles] at hf
    rw [← hall]
    exact List.mem_map_of_mem (FileSummary.mem_of_mem_rank hf)
  case ordered =>
    rw [hfiles]
    exact FileSummary.pairwise_rank hgiven
  case omitted =>
    intro name hname hout f hf
    rw [← hall] at hname
    obtain ⟨g, hg, rfl⟩ := List.mem_map.mp hname
    rw [hfiles] at hout hf
    have houtranks := FileSummary.outranks_of_notMem_rank hgiven hg
      (fun hkept => hout (List.mem_map_of_mem hkept)) hf
    rwa [FileSummary.Outranks, (graded_of_mem_summariesOf hg).1] at houtranks
  case graded =>
    intro f hf
    refine ⟨(hgraded f hf).1, ?_⟩
    rw [(hgraded f hf).1]
    exact FileName.importance_mem f.name
  case functions => exact fun f hf => (hgraded f hf).2
  case changes =>
    rw [hchanges]
    exact recentChanges_bounded
  case dependencies => exact hdependencies

/-- Every directory that can be listed has a record, whatever the assistant and version control do,
and it sums up the visible files. Another order of listing gives the same record. -/
theorem record_sums_up (a : Analyzer) (ht : t.WellFormed) (h : t.listDirectory directory = .ok names) :
    ∃ visible r questions, (∀ name, name ∈ visible ↔ a.IsVisible t directory names name) ∧
      visible.Pairwise (fun m n => bytesOf m < bytesOf n) ∧
      a.record t directory = .ok (r, questions) ∧ SumsUp t directory visible r ∧
      ∀ t', Relisted t t' → a.record t' directory = .ok (r, questions) := by
  obtain ⟨l, hd⟩ := find_of_listDirectory h
  rw [listDirectory_of_find hd] at h
  obtain rfl := Except.ok.inj h
  have hvisible : ∀ name, name ∈ (a.shownNames t directory l).mergeSort (· ≤ ·) ↔
      a.IsVisible t directory (t.children l) name := by
    intro name
    rw [List.mem_mergeSort, mem_shownNames_iff_isVisible]
  have hplain : ∀ name ∈ (a.shownNames t directory l).mergeSort (· ≤ ·), IsPlainName name := by
    intro name hname
    have hlisted := ((hvisible name).mp hname).listed
    obtain ⟨e, he⟩ := Option.isSome_iff_exists.mp (mem_children_iff.mp hlisted)
    exact (ht.isEntryName he name (by simp)).toIsPlainName
  obtain ⟨questions, hrecord⟩ := record_eq (visibleFiles_eq (a := a) hd) rfl
  have hnodup : (a.shownNames t directory l).Nodup := nodup_shownNames ht
  have hsorted := pairwise_bytesOf_mergeSort hnodup
  refine ⟨_, _, questions, hvisible, hsorted, hrecord, ?_, fun t' ht' => ?_⟩
  · refine sumsUp_of_rank (a := a) hplain hsorted ?_ ?_ ?_ ?_
    · rfl
    · rfl
    · rfl
    · exact dependencies_filesAt hplain
  · rw [record_relisted ht ht' hd, hrecord]

/-- Two source files, a hidden file and a link, listed in no order. -/
def scattered : FileTree where
  entries := [(["b.ts"], .file "export const b = 1".toUTF8 2), ([".env"], .file "KEY=1".toUTF8 1),
    (["alias.ts"], .link "b.ts"), (["a.ts"], .file "import b from './b'".toUTF8 3)]

lemma find_scattered :
    scattered.find ⟨"/a.ts"⟩ = .ok (["a.ts"], .file "import b from './b'".toUTF8 3) ∧
      scattered.find ⟨"/alias.ts"⟩ = .ok (["b.ts"], .file "export const b = 1".toUTF8 2) ∧
      scattered.find ⟨"/b.ts"⟩ = .ok (["b.ts"], .file "export const b = 1".toUTF8 2) := by
  have hwell : scattered.WellFormed := by decide
  have hb : scattered.entryAt? ["b.ts"] = some (.file "export const b = 1".toUTF8 2) := rfl
  have hfirst : scattered.find (pathOf ["a.ts"]) = _ := find_pathOf hwell rfl (by simp) (by decide)
  have hlast : scattered.find (pathOf ["b.ts"]) = _ := find_pathOf hwell hb (by simp) (by decide)
  refine ⟨hfirst, find_eq_ok_iff.mpr ⟨?_, hb⟩, hlast⟩
  have hadmitted : (⟨"/alias.ts"⟩ : Path).IsAdmitted := by decide
  have hsegments : segments "/alias.ts" = ["alias.ts"] ∧ segments "b.ts" = ["b.ts"] := by decide
  have hstart : startOf "b.ts" [] = [] := rfl
  have halias : scattered.entryAt? ([] ++ ["alias.ts"]) = some (.link "b.ts") := rfl
  rw [locate_of_admitted _ hadmitted, startOf_of_isAbsolute (by decide), hsegments.1, linkLimit,
    walk_of_link rfl (by decide) (by decide) (by decide) halias, hsegments.2, hstart, List.append_nil]
  exact walk_down hwell hb (by simp)

lemma isVisible_scattered_iff (hfilter : a.filter = ⟨⟨"/"⟩, []⟩) (name : String) :
    a.IsVisible scattered ⟨"/"⟩ ["b.ts", ".env", "alias.ts", "a.ts"] name ↔
      name ∈ ["a.ts", "alias.ts", "b.ts"] := by
  obtain ⟨ha, halias, hb⟩ := find_scattered
  constructor
  · rintro ⟨hlisted, -, hshown, -⟩
    simp only [List.mem_cons, List.not_mem_nil, or_false] at hlisted ⊢
    rcases hlisted with rfl | rfl | rfl | rfl
    · simp
    · exact absurd hshown (by decide)
    · simp
    · simp
  · intro hmem
    simp only [List.mem_cons, List.not_mem_nil, or_false] at hmem
    rcases hmem with rfl | rfl | rfl
    · exact ⟨by simp, isFile_iff.mpr ⟨_, _, _, ha⟩, by decide, by rw [hfilter]; decide⟩
    · exact ⟨by simp, isFile_iff.mpr ⟨_, _, _, halias⟩, by decide, by rw [hfilter]; decide⟩
    · exact ⟨by simp, isFile_iff.mpr ⟨_, _, _, hb⟩, by decide, by rw [hfilter]; decide⟩

lemma dependenciesAt_of_find {name text : String} {p : Path} {edges : List Dependency} {seconds : Int64}
    (hpath : directory.join ⟨name⟩ = p) (hfind : t.find p = .ok (l, .file text.toUTF8 seconds))
    (hfacts : (Source.analyze? p text).map (Dependency.ofFacts name) = some edges) :
    dependenciesAt t directory name = edges := by
  obtain ⟨facts, hanalyze, rfl⟩ := Option.map_eq_some_iff.mp hfacts
  unfold dependenciesAt InspectedFile.source
  rw [hpath, readText_of_find hfind, Document.fromUTF8?_toUTF8]
  simp only [hanalyze, Option.map_some, Option.getD_some]

lemma dependenciesAt_scattered : ["a.ts", "alias.ts", "b.ts"].flatMap (dependenciesAt scattered ⟨"/"⟩) =
    [⟨"b", .file, "./b", "a.ts"⟩, ⟨"b", .exported, "alias.ts", Dependency.everyone⟩,
      ⟨"b", .exported, "b.ts", Dependency.everyone⟩] := by
  obtain ⟨ha, halias, hb⟩ := find_scattered
  have hedge : dependenciesAt scattered ⟨"/"⟩ "a.ts" = [⟨"b", .file, "./b", "a.ts"⟩] :=
    dependenciesAt_of_find (by decide) ha (by decide +kernel)
  have hlinked : dependenciesAt scattered ⟨"/"⟩ "alias.ts" =
      [⟨"b", .exported, "alias.ts", Dependency.everyone⟩] :=
    dependenciesAt_of_find (by decide) halias (by decide +kernel)
  have hexport : dependenciesAt scattered ⟨"/"⟩ "b.ts" =
      [⟨"b", .exported, "b.ts", Dependency.everyone⟩] :=
    dependenciesAt_of_find (by decide) hb (by decide +kernel)
  rw [List.flatMap_cons, List.flatMap_cons, List.flatMap_cons, List.flatMap_nil, hedge, hlinked,
    hexport]
  rfl

/-- The files listed the other way round. The file behind the link is summed up under both names. -/
theorem record_sums_up_scattered :
    scattered.WellFormed ∧
      scattered.listDirectory ⟨"/"⟩ = .ok ["b.ts", ".env", "alias.ts", "a.ts"] ∧
      ∃ r questions, (Analyzer.mk {} ⟨⟨"/"⟩, []⟩ (some describer) .absent).record scattered ⟨"/"⟩ =
          .ok (r, questions) ∧
        (Analyzer.mk {} ⟨⟨"/"⟩, []⟩ (some describer) .absent).record
          { scattered with entries := scattered.entries.reverse } ⟨"/"⟩ = .ok (r, questions) ∧
        r.keyFiles.map (·.name) = ["a.ts", "alias.ts", "b.ts"] ∧
        r.dependencies = [⟨"b", .file, "./b", "a.ts"⟩,
          ⟨"b", .exported, "alias.ts", Dependency.everyone⟩,
          ⟨"b", .exported, "b.ts", Dependency.everyone⟩] := by
  have hwell : scattered.WellFormed := by decide
  have hlist : scattered.listDirectory ⟨"/"⟩ = .ok ["b.ts", ".env", "alias.ts", "a.ts"] :=
    listDirectory_of_find (find_slash scattered)
  obtain ⟨visible, r, questions, hvisible, hsorted, hrecord, hsums, hrelisted⟩ :=
    record_sums_up ⟨{}, ⟨⟨"/"⟩, []⟩, some describer, .absent⟩ hwell hlist
  have hreversed : Relisted scattered { scattered with entries := scattered.entries.reverse } :=
    ⟨List.reverse_perm _, rfl, rfl⟩
  have hasymm : Std.Asymm fun m n : String => bytesOf m < bytesOf n :=
    ⟨fun _ _ h h' => List.lt_asymm h h'⟩
  obtain rfl : visible = ["a.ts", "alias.ts", "b.ts"] :=
    hsorted.eq_of_mem_iff (by decide) fun name =>
      (hvisible name).trans (isVisible_scattered_iff rfl name)
  have hperm := hsums.perm_names (by decide)
  -- the three names have one importance, so they stand in their order
  have hgrade : ∀ f ∈ r.keyFiles, f.importance = 7 := by
    intro f hf
    have hnames : ∀ name ∈ ["a.ts", "alias.ts", "b.ts"], FileName.importance name = 7 := by decide
    rw [(hsums.graded f hf).1]
    exact hnames f.name (hsums.kept f hf)
  have hordered : (r.keyFiles.map (·.name)).Pairwise fun m n => bytesOf m < bytesOf n := by
    rw [List.pairwise_map]
    refine hsums.ordered.imp_of_mem fun {f g} hf hg h => ?_
    rw [hgrade f hf, hgrade g hg] at h
    simpa using h
  refine ⟨hwell, hlist, r, questions, hrecord, hrelisted _ hreversed,
    hperm.eq_of_pairwise' hordered (by decide), ?_⟩
  rw [hsums.dependencies, dependenciesAt_scattered]

/-- A directory with one file of a long name. -/
def oneLong : FileTree where
  entries := [(["p"], .directory), (["p", longName], .file "".toUTF8 1)]

lemma wellFormed_oneLong : oneLong.WellFormed where
  nodup := by simp [oneLong]
  names := by
    have hp : IsEntryName "p" := by decide
    simp [oneLong, hp, isEntryName_longName]
  parents := by
    simp only [oneLong, List.mem_cons, List.not_mem_nil, or_false]
    rintro x (rfl | rfl) <;> rfl

/-- The path of the directory with slashes behind it. -/
def slashed (n : Nat) : Path := ⟨.ofList ('/' :: 'p' :: List.replicate n '/')⟩

lemma slashed_eq (n : Nat) : slashed n = withSlashes ⟨"/p"⟩ n := by
  apply Path.ext_text
  rw [toList_withSlashes, slashed, String.toList_ofList]
  rfl

lemma find_slashed {n : Nat} (hn : n + 2 ≤ pathLimit) :
    oneLong.find (slashed n) = .ok (["p"], .directory) := by
  have hp : oneLong.find (pathOf ["p"]) = .ok (["p"], .directory) :=
    find_pathOf wellFormed_oneLong rfl (by simp) (by decide)
  have hsize : "/p".utf8ByteSize = 2 := rfl
  rw [slashed_eq]
  exact find_withSlashes hp (by rwa [hsize, Nat.add_comm])

/-- The file is out of reach on a path to which its name no longer fits. -/
lemma isFile_slashed {n : Nat} (hn : pathLimit < n + 252) :
    oneLong.isFile ((slashed n).join ⟨longName⟩) = false := by
  have hsize : "/p".utf8ByteSize = 2 := rfl
  rw [Bool.eq_false_iff, Ne, isFile_iff, slashed_eq]
  rintro ⟨l, bytes, seconds, hfind⟩
  refine not_isAdmitted_join_withSlashes isEntryName_longName.toIsPlainName ?_
    (isAdmitted_of_find hfind)
  rw [hsize, size_longName]
  omega

/-- The file is one of the directory, not hidden and not left out, but the record has no place for it:
the directory can be listed on this path, and the path of the file is too long. -/
theorem record_misses_long_path :
    oneLong.WellFormed ∧ oneLong.listDirectory (slashed 4000) = .ok [longName] ∧
      oneLong.entryAt? (["p"] ++ [longName]) = some (.file "".toUTF8 1) ∧
      FileName.isHidden longName = false ∧
      (IgnoreFilter.everything ⟨"/"⟩).includesPath ((slashed 4000).join ⟨longName⟩) false = true ∧
      ∃ r questions, (Analyzer.mk {} (.everything ⟨"/"⟩) none .absent).record oneLong (slashed 4000) =
        .ok (r, questions) ∧ r.keyFiles = [] := by
  have hlimit : 4000 + 2 ≤ pathLimit ∧ pathLimit < 4000 + 252 := by decide
  have hd : oneLong.find (slashed 4000) = .ok (["p"], .directory) := find_slashed hlimit.1
  have hchildren : oneLong.children ["p"] = [longName] := rfl
  have hentry : oneLong.entryAt? (["p"] ++ [longName]) = some (.file "".toUTF8 1) :=
    entryAt?_of_mem wellFormed_oneLong.nodup (by simp) (by simp [oneLong])
  refine ⟨wellFormed_oneLong, ?_, hentry, isHidden_longName, IgnoreFilter.includesPath_everything _ _ _, ?_⟩
  · rw [listDirectory_of_find hd, hchildren]
  · have hshown : (Analyzer.mk {} (.everything ⟨"/"⟩) none .absent).shownNames oneLong (slashed 4000)
        ["p"] = [] := by
      unfold shownNames
      rw [hchildren, List.filter_cons, isFile_slashed hlimit.2]
      simp
    have hvisible := visibleFiles_eq hd (a := Analyzer.mk {} (.everything ⟨"/"⟩) none .absent)
    rw [hshown, List.mergeSort_nil, List.map_nil] at hvisible
    have hrecord := record_unassisted hvisible
    rw [unassisted] at hrecord
    refine ⟨_, [], hrecord, ?_⟩
    simp only [baseRecord, List.map_nil, FileSummary.rank, List.mergeSort_nil, List.take_nil]

end Analyzer

end DirectoryNotes
