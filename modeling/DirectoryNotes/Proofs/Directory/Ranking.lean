import DirectoryNotes.Proofs.Directory.Assistance
import DirectoryNotes.Proofs.Directory.Reanalysis
import DirectoryNotes.Proofs.Document.Ranking
import DirectoryNotes.Proofs.Document.Replacement
import DirectoryNotes.Proofs.FileName
import DirectoryNotes.Proofs.Source.Names

/-!
# The ranking in the document of an analysis

What an analysis writes above the ranked files comes from the names and the contents of files. The
module of an import is the only part of it that may hold a line end, so it is the only part that can
look like the heading of the ranked files:

* `lacksHeading_purpose`, `lacksHeading_architecture`: what stands above the ranked files;
* `isLegible_summaryWith`: the lines of a file, whatever its contents;
* `keyFiles_read_analyze`: the ranking of a record is read back from the document that was written,
  unless a module is written over several lines of which one is the heading;
* `keyFiles_read_forgedText`: a project with such a module, where it is lost.
-/

namespace DirectoryNotes

open Text

/-! ## Texts without the heading -/

namespace Document

variable {c : Char} {a b s : List Char}

/-- A character that trimming keeps and that the heading of the ranked files does not have. -/
def IsMark (c : Char) : Prop := isBlank c = false ∧ c ∉ rankingLine.toList

instance (c : Char) : Decidable (IsMark c) :=
  inferInstanceAs (Decidable (isBlank c = false ∧ c ∉ rankingLine.toList))

lemma trimBy_ne_rankingLine (hc : IsMark c) (hmem : c ∈ s) :
    trimBy isBlank s ≠ rankingLine.toList := by
  intro heq
  have hkept := (mem_trimBy_iff hc.1).mpr hmem
  rw [heq] at hkept
  exact hc.2 hkept

/-- One line with a mark in it is not the heading. -/
lemma lacksHeading_of_mem (hc : IsMark c) (hmem : c ∈ s) (hline : '\n' ∉ s) : LacksHeading s := by
  intro piece hpiece
  rw [pieces_of_notMem hline, List.mem_singleton] at hpiece
  rw [hpiece]
  exact trimBy_ne_rankingLine hc hmem

/-- One line that begins with neither a blank nor `#` is not the heading. -/
lemma lacksHeading_ofList (h : isBlank c = false ∧ c ≠ '#' ∧ '\n' ∉ c :: s) :
    LacksHeading (String.ofList (c :: s)).toList := by
  obtain ⟨hblank, hc, hline⟩ := h
  have hheading : rankingLine.toList.head? = some '#' := by decide
  rw [String.toList_ofList]
  intro piece hpiece heq
  rw [pieces_of_notMem hline, List.mem_singleton] at hpiece
  rw [hpiece, trimBy_cons hblank] at heq
  rw [← heq] at hheading
  exact hc (Option.some.inj hheading)

/-- Two texts with a mark between them lack the heading when both do: the line in which they meet
has the mark. -/
lemma LacksHeading.append_mark (ha : LacksHeading a) (hc : IsMark c) (hb : LacksHeading b) :
    LacksHeading (a ++ c :: b) := by
  have hline : c ≠ '\n' := by
    rintro rfl
    exact absurd hc.1 (by decide)
  obtain ⟨last, first, hlast, hfirst, heq⟩ := pieces_append '\n' a (c :: b)
  obtain ⟨head, tail, hb'⟩ := List.exists_cons_of_ne_nil (pieces_ne_nil '\n' b)
  rw [pieces, if_neg hline, hb'] at hfirst heq
  obtain rfl : c :: head = first := by simpa using hfirst
  intro piece hpiece
  rw [heq, List.mem_append, List.mem_cons] at hpiece
  rcases hpiece with hpiece | rfl | hpiece
  · exact ha piece ((List.dropLast_sublist _).subset hpiece)
  · exact trimBy_ne_rankingLine hc (by simp)
  · refine hb piece ?_
    rw [hb']
    exact List.mem_cons_of_mem _ hpiece

/-- A blank in front does not matter. -/
lemma LacksHeading.blank_cons (hs : LacksHeading s) : LacksHeading (' ' :: s) := by
  obtain ⟨head, tail, hpieces⟩ := List.exists_cons_of_ne_nil (pieces_ne_nil '\n' s)
  intro piece hpiece
  rw [pieces, if_neg (by decide), hpieces, List.mem_cons] at hpiece
  rcases hpiece with rfl | hpiece
  · have hblank : trimBy isBlank (' ' :: head) = trimBy isBlank head := by
      unfold trimBy
      rw [List.dropWhile_cons_of_pos (by decide)]
    rw [hblank]
    exact hs head (by rw [hpieces]; exact List.mem_cons_self)
  · exact hs piece (by rw [hpieces]; exact List.mem_cons_of_mem _ hpiece)

/-- A list of texts lacks the heading when each of them does. -/
lemma lacksHeading_join {parts : List String} (h : ∀ part ∈ parts, LacksHeading part.toList) :
    LacksHeading (join ", " parts).toList := by
  have hsep : ", ".toList = [',', ' '] := String.toList_ofList
  have hcomma : IsMark ',' := by decide
  unfold join
  rw [String.toList_intercalate, hsep]
  induction parts with
  | nil => unfold LacksHeading; decide
  | cons part rest ih =>
    have hpart := h part List.mem_cons_self
    have hrest := ih fun other hother => h other (List.mem_cons_of_mem _ hother)
    cases rest with
    | nil => simpa using hpart
    | cons next more =>
      rw [List.map_cons, List.intercalate_cons_of_ne_nil (by simp), List.append_assoc]
      exact hpart.append_mark hcomma hrest.blank_cons

/-- A text that ends in a point and lacks the heading up to there. -/
def IsSentence (s : List Char) : Prop := ∃ front, s = front ++ ['.'] ∧ LacksHeading front

/-- Sentences one after the other lack the heading. -/
lemma lacksHeading_sentences {parts : List String} (h : ∀ part ∈ parts, IsSentence part.toList) :
    LacksHeading (join " " parts).toList := by
  have hsep : " ".toList = [' '] := String.toList_ofList
  have hpoint : IsMark '.' := by decide
  have hempty : LacksHeading [] := by unfold LacksHeading; decide
  unfold join
  rw [String.toList_intercalate, hsep]
  induction parts with
  | nil => exact hempty
  | cons part rest ih =>
    have hrest := ih fun other hother => h other (List.mem_cons_of_mem _ hother)
    obtain ⟨front, hpart, hfront⟩ := h part List.mem_cons_self
    cases rest with
    | nil =>
      have hlast := hfront.append_mark hpoint hempty
      rw [← hpart] at hlast
      simpa using hlast
    | cons next more =>
      rw [List.map_cons, List.intercalate_cons_of_ne_nil (by simp), hpart, List.append_assoc,
        List.append_assoc]
      exact hfront.append_mark hpoint hrest.blank_cons

end Document

/-! ## Above the ranked files -/

namespace Directory

open Document

variable {names : List String} {sources : List SourceSummary} {path : Path}

lemma isMark_capital : IsMark 'D' := by decide

lemma lacksHeading_knownDirectories : ∀ row ∈ knownDirectories, LacksHeading row.2.toList := by
  simp only [knownDirectories, List.forall_mem_cons]
  and_intros
  all_goals first
    | exact lacksHeading_ofList (by decide)
    | exact List.forall_mem_nil _

lemma lacksHeading_extensionPurposes : ∀ row ∈ extensionPurposes, LacksHeading row.2.toList := by
  simp only [extensionPurposes, List.forall_mem_cons]
  and_intros
  all_goals first
    | exact lacksHeading_ofList (by decide)
    | exact List.forall_mem_nil _

/-- No purpose looks like the heading of the ranked files. -/
lemma lacksHeading_purpose : LacksHeading (purpose path names).toList := by
  have hlookup : ∀ {table : List (String × String)} {key value : String},
      (∀ row ∈ table, LacksHeading row.2.toList) → table.lookup key = some value →
        LacksHeading value.toList := by
    intro table key value htable h
    obtain ⟨before, after, rfl, -⟩ := List.lookup_eq_some_iff.mp h
    exact htable (key, value) (List.mem_append_right _ List.mem_cons_self)
  have hcount : LacksHeading
      ("Directory containing " ++ toString names.length ++ " files").toList := by
    have hwords : 'D' ∈ "Directory containing ".toList ∧ '\n' ∉ "Directory containing ".toList ∧
        '\n' ∉ " files".toList :=
      ⟨by decide, notMem_toList_ofList (by decide), notMem_toList_ofList (by decide)⟩
    rw [String.toList_append, String.toList_append]
    refine lacksHeading_of_mem isMark_capital ?_ ?_
    · exact List.mem_append_left _ (List.mem_append_left _ hwords.1)
    · simp only [List.mem_append, not_or]
      exact ⟨⟨hwords.2.1, newline_notMem_toString _⟩, hwords.2.2⟩
  unfold purpose
  dsimp only
  split
  · next known heq => exact hlookup lacksHeading_knownDirectories heq
  split
  · next ext most hdominant =>
    cases hext : extensionPurposes.lookup ext with
    | some phrase => exact hlookup lacksHeading_extensionPurposes hext
    | none => exact hcount
  · exact hcount

/-- The commonest extension is the extension of a file. -/
lemma mem_extensionsOf {ext : String} {count : Nat}
    (h : dominantExtension? names = some (ext, count)) : ext ∈ extensionsOf names := by
  unfold dominantExtension? at h
  have hfold : ∀ (rest : List String) (best : Option (String × Nat)),
      rest.foldl (commoner (extensionsOf names)) best = some (ext, count) →
        best = some (ext, count) ∨ ext ∈ rest := by
    intro rest
    induction rest with
    | nil => exact fun best h => .inl h
    | cons other rest ih =>
      intro best h
      rcases ih _ h with h | h
      · -- either the best so far stays, or the extension at hand takes its place
        unfold commoner at h
        dsimp only at h
        split at h
        · obtain ⟨rfl, -⟩ := Prod.mk.inj (Option.some.inj h)
          exact .inr List.mem_cons_self
        split at h
        · obtain ⟨rfl, -⟩ := Prod.mk.inj (Option.some.inj h)
          exact .inr List.mem_cons_self
        · exact .inl h
      · exact .inr (List.mem_cons_of_mem _ h)
  exact (hfold _ none h).resolve_left (by simp)

/-- The sentence on the packages that are imported. -/
lemma isSentence_packages {packages : List String}
    (h : ∀ package ∈ packages, LacksHeading package.toList) :
    IsSentence ("External dependencies: " ++ join ", " packages ++ ".").toList := by
  have hfront : "External dependencies: ".toList = "External dependencies".toList ++ [':', ' '] := by
    rw [String.toList_ofList, String.toList_ofList]
    rfl
  have hend : ".".toList = ['.'] := String.toList_ofList
  have hcolon : IsMark ':' := by decide
  have hwords : LacksHeading "External dependencies".toList := lacksHeading_ofList (by decide)
  rw [String.toList_append, String.toList_append, hfront, hend]
  refine ⟨_, rfl, ?_⟩
  rw [List.append_assoc]
  exact hwords.append_mark hcolon (lacksHeading_join h).blank_cons

/-- The sentence on the commonest extension. -/
lemma isSentence_extension {ext : String} (hext : '\n' ∉ ext.toList) (count total : Nat) :
    IsSentence ("Primarily ." ++ ext ++ " files (" ++ toString count ++ " of " ++ toString total
      ++ ").").toList := by
  have hwords : '\n' ∉ "Primarily .".toList ∧ '\n' ∉ " files (".toList ∧ '\n' ∉ " of ".toList :=
    ⟨notMem_toList_ofList (by decide), notMem_toList_ofList (by decide),
      notMem_toList_ofList (by decide)⟩
  have hend : ").".toList = [')', '.'] := String.toList_ofList
  have hmark : IsMark 'P' := by decide
  simp only [String.toList_append, hend]
  refine ⟨"Primarily .".toList ++ ext.toList ++ " files (".toList ++ (toString count).toList ++
    " of ".toList ++ (toString total).toList ++ [')'], by simp, ?_⟩
  refine lacksHeading_of_mem hmark (by simp) ?_
  simp only [List.mem_append, not_or]
  exact ⟨⟨⟨⟨⟨⟨hwords.1, hext⟩, hwords.2.1⟩, newline_notMem_toString _⟩, hwords.2.2⟩,
    newline_notMem_toString _⟩, by decide⟩

/-- No architecture looks like the heading of the ranked files, unless the name of a package does. -/
lemma lacksHeading_architecture (hnames : ∀ ext ∈ extensionsOf names, '\n' ∉ ext.toList)
    (hpackages : ∀ package ∈ packages sources, LacksHeading package.toList) :
    LacksHeading (architecture names sources).toList := by
  have hnone : LacksHeading "No source files to analyze.".toList := lacksHeading_ofList (by decide)
  have htests : IsSentence "Includes tests.".toList := by
    refine ⟨"Includes tests".toList, ?_, lacksHeading_ofList (by decide)⟩
    rw [String.toList_ofList, String.toList_ofList]
    rfl
  have htypes : IsSentence "Includes type definitions.".toList := by
    refine ⟨"Includes type definitions".toList, ?_, lacksHeading_ofList (by decide)⟩
    rw [String.toList_ofList, String.toList_ofList]
    rfl
  unfold architecture
  split
  · exact hnone
  · next ext count hdominant =>
    refine lacksHeading_sentences ?_
    intro part hpart
    simp only [List.mem_append, List.mem_singleton, List.mem_ite_nil_left,
      List.mem_ite_nil_right] at hpart
    rcases hpart with ((rfl | ⟨-, rfl⟩) | ⟨-, rfl⟩) | ⟨-, rfl⟩
    · exact isSentence_extension (hnames ext (mem_extensionsOf hdominant)) _ _
    · exact isSentence_packages hpackages
    · exact htests
    · exact htypes

end Directory

/-! ## The ranked files -/

namespace InspectedFile

variable {t : FileTree} {path : Path} {text name : String} {facts : SourceFacts}

/-- The facts about a source file are those of its text, with a purpose. -/
lemma source_eq_some (h : source t path = some (text, facts)) :
    facts = { Source.declarations text.toList with
      purpose := Source.purpose path (Source.declarations text.toList) } := by
  have hfound := analyze?_of_source h
  unfold Source.analyze? at hfound
  exact (Option.some.inj (Option.ite_none_right_eq_some.mp hfound).2).symm

/-- What the name of a file tells is told in lines, if it is a line without a quote. -/
lemma isLegible_ofName (hplain : IsPlainName name) (hquote : '\x60' ∉ name.toList)
    (hline : '\n' ∉ name.toList) (seconds : UInt64) :
    (FileSummary.ofName name seconds).IsLegible := by
  have hdescription := FileName.newline_notMem_description hplain hline
  have htopics : ∀ topic ∈ FileName.topics name, '\n' ∉ topic.toList :=
    fun topic => FileName.newline_notMem_topics
  unfold FileSummary.ofName
  constructor
  all_goals dsimp only
  case name_ne_empty => exact hplain.ne_empty
  case name_unquoted => exact hquote
  case name_line => exact hline
  case description_line => exact hdescription
  case functions_line => exact htopics

/-- The lines of a file are lines whatever stands in it. -/
lemma isLegible_summaryWith {directory : Path} (hplain : IsPlainName name)
    (hquote : '\x60' ∉ name.toList) (hline : '\n' ∉ name.toList) :
    ((inspect t (directory.join ⟨name⟩)).summaryWith none).IsLegible := by
  have hname : (directory.join ⟨name⟩).displayName = name := directory.displayName_join hplain
  have hsummary : (inspect t (directory.join ⟨name⟩)).summary.IsLegible := by
    show (summarize t (directory.join ⟨name⟩)).IsLegible
    unfold summarize
    rw [hname]
    exact isLegible_ofName hplain hquote hline _
  generalize hfile : inspect t (directory.join ⟨name⟩) = file at hsummary
  unfold summaryWith
  split
  · exact hsummary
  · next text facts hsource =>
    have hfacts : facts = { Source.declarations text.toList with
        purpose := Source.purpose (directory.join ⟨name⟩) (Source.declarations text.toList) } := by
      rw [← hfile] at hsource
      exact source_eq_some hsource
    constructor
    case name_ne_empty => exact hsummary.name_ne_empty
    case name_unquoted => exact hsummary.name_unquoted
    case name_line => exact hsummary.name_line
    case description_line =>
      rw [hfacts]
      dsimp only
      rw [Option.getD_none]
      exact Source.newline_notMem_purpose
        (Path.newline_notMem_stem (directory.fileName?_join hplain) hline)
    case functions_line =>
      intro g hg
      dsimp only at hg
      split at hg
      · exact hsummary.functions_line g hg
      · obtain ⟨f, hf, rfl⟩ := List.mem_map.mp hg
        have hfunction : f ∈ facts.functions := List.mem_of_mem_filter (List.mem_of_mem_take hf)
        rw [hfacts] at hfunction
        exact Source.newline_notMem_signature hfunction

end InspectedFile

/-! ## The record and its document -/

namespace Analyzer

open FileTree Document

variable {t : FileTree} {d : Path} {l : Location} {c : Configuration} {filter : IgnoreFilter}
  {r : DirectoryRecord}

/-- The packages that are named are modules that are imported from outside. -/
lemma exists_import_of_mem_packages {sources : List SourceSummary} {package : String}
    (h : package ∈ Directory.packages sources) :
    ∃ s ∈ sources, ∃ i ∈ s.facts.imports, i.isExternal = true ∧ i.source = package := by
  unfold Directory.packages at h
  have hfound := mem_of_mem_firstOccurrences (List.mem_of_mem_take h)
  obtain ⟨i, hi, rfl⟩ := List.mem_map.mp hfound
  obtain ⟨hmem, hexternal⟩ := List.mem_filter.mp hi
  obtain ⟨s, hs, hi⟩ := List.mem_flatMap.mp hmem
  exact ⟨s, hs, i, hi, hexternal, rfl⟩

section
variable {names : List String} (hplain : ∀ name ∈ names, IsPlainName name)
  (hfiles : ∀ name ∈ names, '\x60' ∉ name.toList ∧ '\n' ∉ name.toList)
include hplain hfiles

/-- The files of a record that asks nobody are legible. -/
lemma isLegible_plainRecord : ∀ f ∈ (plainRecord d (names.map fun name =>
    InspectedFile.inspect t (d.join ⟨name⟩))).keyFiles, f.IsLegible := by
  intro f hf
  unfold plainRecord baseRecord FileSummary.rank at hf
  have hsummary := List.mem_mergeSort.mp (List.mem_of_mem_take hf)
  obtain ⟨file, hfile, rfl⟩ := List.mem_map.mp hsummary
  obtain ⟨name, hname, rfl⟩ := List.mem_map.mp hfile
  exact InspectedFile.isLegible_summaryWith (hplain name hname) (hfiles name hname).1
    (hfiles name hname).2

/-- The extensions that an architecture may name are lines. -/
lemma newline_notMem_extensionsOf : ∀ ext ∈ Directory.extensionsOf (((names.map fun name =>
    InspectedFile.inspect t (d.join ⟨name⟩)).map (·.summaryWith none)).map (·.name)),
    '\n' ∉ ext.toList := by
  intro ext hext
  obtain ⟨shown, hshown, hext⟩ := List.mem_filterMap.mp hext
  obtain ⟨f, hf, rfl⟩ := List.mem_map.mp hshown
  obtain ⟨file, hfile, rfl⟩ := List.mem_map.mp hf
  obtain ⟨name, hname, rfl⟩ := List.mem_map.mp hfile
  have hdisplay : ((InspectedFile.inspect t (d.join ⟨name⟩)).summaryWith none).name = name := by
    rw [InspectedFile.summaryWith_name]
    exact d.displayName_join (hplain name hname)
  rw [hdisplay] at hext
  exact FileName.newline_notMem_extension (hplain name hname) (hfiles name hname).2 ext hext

/-- The ranking of a record that asks nobody is read back from its document, if no line of a module
looks like the heading. -/
lemma keyFiles_render_plainRecord (hname : '\n' ∉ d.displayName.toList)
    (hmodules : ∀ name ∈ names, ∀ text facts,
      InspectedFile.source t (d.join ⟨name⟩) = some (text, facts) →
        ∀ i ∈ facts.imports, i.isExternal = true → LacksHeading i.source.toList) :
    keyFiles (render (plainRecord d (names.map fun name =>
        InspectedFile.inspect t (d.join ⟨name⟩)))) =
      (plainRecord d (names.map fun name => InspectedFile.inspect t (d.join ⟨name⟩))).keyFiles.map
        fun f => (f.name, f.importance) := by
  have hextensions : ∀ ext ∈ Directory.extensionsOf (((names.map fun name =>
      InspectedFile.inspect t (d.join ⟨name⟩)).map (·.summaryWith none)).map (·.name)),
      '\n' ∉ ext.toList := newline_notMem_extensionsOf hplain hfiles
  have hlegible : ∀ f ∈ (plainRecord d (names.map fun name =>
      InspectedFile.inspect t (d.join ⟨name⟩))).keyFiles, f.IsLegible :=
    isLegible_plainRecord hplain hfiles
  refine keyFiles_of_render hname ?_ ?_ hlegible
  · unfold plainRecord baseRecord
    dsimp only
    exact Directory.lacksHeading_purpose
  unfold plainRecord baseRecord
  dsimp only
  refine Directory.lacksHeading_architecture hextensions ?_
  intro package hpackage
  obtain ⟨s, hs, i, hi, hexternal, rfl⟩ := exists_import_of_mem_packages hpackage
  obtain ⟨file, hfile, hsource⟩ := List.mem_filterMap.mp hs
  obtain ⟨name, hmem, rfl⟩ := List.mem_map.mp hfile
  obtain ⟨⟨text, facts⟩, hfacts, rfl⟩ := Option.map_eq_some_iff.mp hsource
  exact hmodules name hmem text facts hfacts i hi hexternal

end

/-- Names that are shown are names. -/
lemma isPlainName_of_mem_shownNames {a : Analyzer} {name : String} (ht : t.WellFormed)
    (h : name ∈ a.shownNames t d l) : IsPlainName name := by
  have hchild : (t.entryAt? (l ++ [name])).isSome := mem_children_iff.mp (List.mem_of_mem_filter h)
  obtain ⟨e, he⟩ := Option.isSome_iff_exists.mp hchild
  exact (ht.isEntryName he name (by simp)).toIsPlainName

/-- The record that a successful analysis gives, and the document that it leaves. A link that has the name
of the document is replaced; only the path of the directory must not go over it. -/
lemma read_analyze (hd : t.find d = .ok (l, .directory))
    (hplace : ∀ target, t.entryAt? (l ++ [fileName]) = some (.link target) →
      (undocumented t l).LeadsInto d l)
    (hdraft : ∀ target, t.entryAt? (l ++ [draftName]) ≠ some (.link target))
    (h : ((offline c filter).analyze t d).result = .ok r) :
    (offline c filter).record t d = .ok (r, []) ∧
      Document.read ((offline c filter).analyze t d).tree d = .ok (some (render r)) := by
  cases hrecord : (offline c filter).record t d with
  | error f =>
    unfold analyze at h
    rw [hrecord] at h
    cases h
  | ok found =>
    obtain ⟨record, questions⟩ := found
    obtain ⟨rfl, hquestions⟩ := record_path hrecord
    dsimp only at hquestions
    have hinto := leadsInto_of_find hd
    have hwritten := write_cases hinto hdraft
    have hoffline : (offline c filter).analyze t record.path =
        ⟨(write t record).1, questions, (write t record).2.map fun _ => record⟩ := by
      unfold analyze
      rw [hrecord]
    rw [hoffline] at h ⊢
    generalize Document.write t record = written at hwritten h ⊢
    -- where the document was not put in its place the analysis has failed
    cases hwritten with
    | refused f _ => cases h
    | obstructed f _ _ _ => cases h
    | placed hadmitted hfree hvacant =>
      obtain rfl := Except.ok.inj h
      refine ⟨by rw [hquestions], (read_placed_iff hinto hadmitted ⟨hfree, hdraft⟩).mpr ?_⟩
      by_cases hlink : ∃ target, t.entryAt? (l ++ [fileName]) = some (.link target)
      · obtain ⟨target, htarget⟩ := hlink
        exact hplace target htarget
      · exact leadsInto_undocumented ⟨hvacant, fun target htarget => hlink ⟨target, htarget⟩⟩ hinto

/-- The ranking survives in the document. After an analysis that asks nobody and succeeds, the
document that is read back from the directory has the ranking of the record, whatever stands in the
files, as long as no module that is imported from outside has a line that is the heading of the
ranked files. The names of the directory and of its files are lines, those of the files without a
quote, the draft is no link, and if the document is one, the path of the directory does not go over
it. -/
theorem keyFiles_read_analyze (ht : t.WellFormed) (hd : t.find d = .ok (l, .directory))
    (hplace : ∀ target, t.entryAt? (l ++ [fileName]) = some (.link target) →
      (undocumented t l).LeadsInto d l)
    (hdraft : ∀ target, t.entryAt? (l ++ [draftName]) ≠ some (.link target))
    (hname : '\n' ∉ d.displayName.toList)
    (hfiles : ∀ name ∈ (offline c filter).shownNames t d l,
      '\x60' ∉ name.toList ∧ '\n' ∉ name.toList)
    (hmodules : ∀ name ∈ (offline c filter).shownNames t d l, ∀ text facts,
      InspectedFile.source t (d.join ⟨name⟩) = some (text, facts) →
        ∀ i ∈ facts.imports, i.isExternal = true →
          ∀ line ∈ linesOf i.source, trim line ≠ "## Key Files")
    (h : ((offline c filter).analyze t d).result = .ok r) :
    ∃ text, Document.read ((offline c filter).analyze t d).tree d = .ok (some text) ∧
      keyFiles text = r.keyFiles.map fun f => (f.name, f.importance) := by
  obtain ⟨hrecord, hread⟩ := read_analyze hd hplace hdraft h
  refine ⟨render r, hread, ?_⟩
  let names := ((offline c filter).shownNames t d l).mergeSort (· ≤ ·)
  have hmem : ∀ name ∈ names, name ∈ (offline c filter).shownNames t d l :=
    fun name hname => List.mem_mergeSort.mp hname
  have hr : r = plainRecord d (names.map fun name => InspectedFile.inspect t (d.join ⟨name⟩)) := by
    rw [record_offline, visibleFiles_eq hd] at hrecord
    have heq := Except.ok.inj hrecord
    dsimp only at heq
    rw [List.map_map] at heq
    exact (Prod.mk.inj heq).1.symm
  rw [hr]
  refine keyFiles_render_plainRecord
    (fun name hmem' => isPlainName_of_mem_shownNames ht (hmem name hmem'))
    (fun name hmem' => hfiles name (hmem name hmem')) hname ?_
  intro name hmem' text facts hsource i hi hexternal
  exact lacksHeading_of_linesOf
    (hmodules name (hmem name hmem') text facts hsource i hi hexternal)

/-! ## One source file -/

/-- A root with one source file. -/
def sourceProject (text : String) : FileTree where
  entries := [(["a.ts"], .file text.toUTF8 1)]

variable (text : String)

lemma isProject_sourceProject : (sourceProject text).IsProject ⟨"/"⟩ [] := by
  have hname : IsEntryName "a.ts" := by decide
  refine ⟨⟨by simp [sourceProject], ?_, ?_⟩, find_slash _, linkFreeBelow_of_entries ?_ _⟩
  · simpa [sourceProject] using hname
  · simp [sourceProject, Entry.isDirectory]
  · simp [sourceProject, Entry.isDirectory, Entry.isFile]

lemma join_sourceProject : (Path.mk "/").join ⟨"a.ts"⟩ = ⟨"/a.ts"⟩ := by decide

lemma find_sourceProject :
    (sourceProject text).find ⟨"/a.ts"⟩ = .ok (["a.ts"], .file text.toUTF8 1) := by
  have hname : IsEntryName "a.ts" := by decide
  have hadmitted : (Path.mk "/a.ts").IsAdmitted := by decide
  have hjoin := find_join_iff (k := ["a.ts"]) (e := .file text.toUTF8 1)
    (isProject_sourceProject text).root hname.toIsPlainName
    ((isProject_sourceProject text).linkFree ["a.ts"])
  rw [join_sourceProject] at hjoin
  exact hjoin.mpr ⟨hadmitted, hname.size_le, rfl, rfl⟩

lemma shownNames_sourceProject :
    (offline c ⟨⟨"/"⟩, []⟩).shownNames (sourceProject text) ⟨"/"⟩ [] = ["a.ts"] := by
  have hchildren : (sourceProject text).children [] = ["a.ts"] := rfl
  have hfile : (sourceProject text).isFile ⟨"/a.ts"⟩ = true :=
    isFile_iff.mpr ⟨_, _, _, find_sourceProject text⟩
  have hshown : FileName.isHidden "a.ts" = false ∧
      (IgnoreFilter.mk ⟨"/"⟩ []).includesPath ⟨"/a.ts"⟩ false = true := by decide
  unfold shownNames
  rw [hchildren, List.filter_singleton, join_sourceProject, hfile, hshown.1]
  simp [offline, hshown.2]

lemma inspect_sourceProject : InspectedFile.inspect (sourceProject text) ⟨"/a.ts"⟩ =
    ⟨⟨"/a.ts"⟩, .ofName "a.ts" 1,
      (Source.analyze? ⟨"/a.ts"⟩ text).map fun facts => (text, facts)⟩ := by
  have hname : (Path.mk "/a.ts").displayName = "a.ts" := by decide
  have hread : (sourceProject text).readText ⟨"/a.ts"⟩ = .ok text :=
    readText_eq_ok_iff.mpr ⟨_, _, _, find_sourceProject text, fromUTF8?_toUTF8 text⟩
  have hmodified : InspectedFile.modifiedSecond (sourceProject text) ⟨"/a.ts"⟩ = 1 := by
    unfold InspectedFile.modifiedSecond FileTree.modified
    rw [find_sourceProject]
    rfl
  unfold InspectedFile.inspect InspectedFile.summarize InspectedFile.source
  rw [hread, hname, hmodified]

lemma result_sourceProject : ((offline c ⟨⟨"/"⟩, []⟩).analyze (sourceProject text) ⟨"/"⟩).result =
    .ok (plainRecord ⟨"/"⟩ [InspectedFile.inspect (sourceProject text) ⟨"/a.ts"⟩]) := by
  have hfiles := visibleFiles_eq (a := offline c ⟨⟨"/"⟩, []⟩) (isProject_sourceProject text).root
  rw [shownNames_sourceProject, List.mergeSort_singleton, List.map_singleton,
    join_sourceProject] at hfiles
  have hrecord : (offline c ⟨⟨"/"⟩, []⟩).record (sourceProject text) ⟨"/"⟩ =
      .ok (plainRecord ⟨"/"⟩ [InspectedFile.inspect (sourceProject text) ⟨"/a.ts"⟩], []) := by
    rw [record_offline, hfiles]
    rfl
  have hanalyzed : (offline c ⟨⟨"/"⟩, []⟩).Analyzed (sourceProject text) ⟨"/"⟩ [] []
      ((offline c ⟨⟨"/"⟩, []⟩).analyze (sourceProject text) ⟨"/"⟩) :=
    analyzed (isProject_sourceProject text) (by simp)
  have hfree : ∀ name, name ≠ "a.ts" → (sourceProject text).entryAt? [name] ≠ some .directory := by
    intro name hname h
    have hmem := mem_of_entryAt? (by simp) h
    simp [sourceProject, hname] at hmem
  have hyields : (offline c ⟨⟨"/"⟩, []⟩).Yields (sourceProject text) ⟨"/"⟩ [] []
      (plainRecord ⟨"/"⟩ [InspectedFile.inspect (sourceProject text) ⟨"/a.ts"⟩]) := by
    constructor
    case record => exact hrecord
    case admitted => decide
    case draft => exact hfree draftName (by decide)
    case place => exact hfree fileName (by decide)
  exact (hanalyzed.result _).mpr hyields

/-- Whatever stands in the file, it is the only one that is ranked. -/
lemma keyFiles_sourceProject : (plainRecord ⟨"/"⟩ [InspectedFile.inspect (sourceProject text)
    ⟨"/a.ts"⟩]).keyFiles.map (fun f => (f.name, f.importance)) = [("a.ts", 7)] := by
  have himportance : (FileSummary.ofName "a.ts" 1).name = "a.ts" ∧
      (FileSummary.ofName "a.ts" 1).importance = 7 := by decide
  unfold plainRecord baseRecord FileSummary.rank
  rw [inspect_sourceProject, List.map_singleton, List.mergeSort_singleton]
  rw [List.take_of_length_le (by simp [FileSummary.rankLimit]), List.map_singleton]
  rw [InspectedFile.summaryWith_name, InspectedFile.summaryWith_importance, himportance.1,
    himportance.2]

/-- A module that goes over two lines, of which none is the heading. -/
def splitText : String := "import x from 'p\n## Key'\nexport function run(a) {}\n"

theorem keyFiles_read_splitText : ∃ text,
    Document.read ((offline {} ⟨⟨"/"⟩, []⟩).analyze (sourceProject splitText) ⟨"/"⟩).tree ⟨"/"⟩ =
      .ok (some text) ∧ keyFiles text = [("a.ts", 7)] := by
  have hproject := isProject_sourceProject splitText
  have hnames : '\n' ∉ (Path.mk "/").displayName.toList ∧ '\x60' ∉ "a.ts".toList ∧
      '\n' ∉ "a.ts".toList := by decide
  have hmodules : ∀ facts ∈ Source.analyze? ⟨"/a.ts"⟩ splitText, ∀ i ∈ facts.imports,
      ∀ line ∈ linesOf i.source, trim line ≠ "## Key Files" := by decide +kernel
  rw [← keyFiles_sourceProject splitText]
  refine keyFiles_read_analyze hproject.wellFormed hproject.root
    (fun target hlink => absurd hlink (hproject.linkFree [fileName] target))
    (hproject.linkFree [draftName]) hnames.1 ?_ ?_ (result_sourceProject splitText)
  · intro name hname
    rw [shownNames_sourceProject, List.mem_singleton] at hname
    rw [hname]
    exact hnames.2
  · intro name hname text facts hsource i hi _
    rw [shownNames_sourceProject, List.mem_singleton] at hname
    rw [hname, join_sourceProject] at hsource
    have hfound : (Source.analyze? ⟨"/a.ts"⟩ splitText).map (fun facts => (splitText, facts)) =
        some (text, facts) := by
      rw [← hsource]
      exact (congrArg InspectedFile.source? (inspect_sourceProject splitText)).symm
    obtain ⟨found, hfacts, heq⟩ := Option.map_eq_some_iff.mp hfound
    obtain ⟨-, rfl⟩ := Prod.mk.inj heq
    exact hmodules found hfacts i hi

/-- A module that goes over two lines, of which one is the heading of the ranked files. -/
def forgedText : String := "import x from 'p\n## Key Files\n'\n"

/-- What an analysis finds in the root with this one file. -/
def forgedRecord : DirectoryRecord where
  path := ⟨"/"⟩
  purpose := "Contains TypeScript modules"
  architecture := "Primarily .ts files (1 of 1). External dependencies: p\n## Key Files\n."
  keyFiles := [⟨"a.ts", "Module implementation", 7, ["General functionality"], 1⟩]
  recentChanges := []
  improvements := ["Add unit tests for the source files in this directory"]
  dependencies := [⟨"x", .package, "p\n## Key Files\n", "a.ts"⟩]

/-- The heading in the module comes first, and what is read ends at the real one. -/
lemma keyFiles_render_forgedRecord : keyFiles (render forgedRecord) = [] := by
  obtain ⟨more, htext⟩ := toList_render forgedRecord
  let front := ("# /\n\n## Purpose\n\nContains TypeScript modules\n\n## Architecture\n\n" ++
    "Primarily .ts files (1 of 1). External dependencies: p").toList
  have hforged : frontOf forgedRecord =
      front ++ '\n' :: (rankingLine.toList ++ ['\n', '.', '\n']) := by decide +kernel
  have hfront : LacksHeading front := by
    unfold LacksHeading
    decide +kernel
  have hheading : '\n' ∉ rankingLine.toList := by decide
  have hpoint : ∀ b, lines ('.' :: '\n' :: b) = ['.'] :: lines b :=
    lines_row (show '\n' ∉ ['.'] by decide)
  have hempty : ∀ b, lines ('\n' :: b) = [] :: lines b := lines_row List.not_mem_nil
  have hkept : (!beginsWith (.ofList ['.']) "## ") = true ∧
      (!beginsWith (.ofList []) "## ") = true := by decide
  have hstop : ¬(!beginsWith (.ofList (dropCarriageReturn rankingLine.toList)) "## ") = true := by
    decide
  rw [hforged] at htext
  simp only [List.append_assoc, List.cons_append, List.nil_append] at htext
  rw [keyFiles_eq htext hfront, hpoint, hempty, lines_row hheading]
  simp only [List.map_cons]
  rw [List.takeWhile_cons, if_pos hkept.1, List.takeWhile_cons, if_pos hkept.2,
    List.takeWhile_cons, if_neg hstop]
  decide +kernel

/-- With the heading in a module the ranking is lost: the one file that is ranked is not among the
lines that are read as the ranking. -/
theorem keyFiles_read_forgedText :
    ((offline {} ⟨⟨"/"⟩, []⟩).analyze (sourceProject forgedText) ⟨"/"⟩).result = .ok forgedRecord ∧
      (forgedRecord.keyFiles.map fun f => (f.name, f.importance)) = [("a.ts", 7)] ∧
      ∃ text, Document.read ((offline {} ⟨⟨"/"⟩, []⟩).analyze (sourceProject forgedText) ⟨"/"⟩).tree
        ⟨"/"⟩ = .ok (some text) ∧ keyFiles text = [] := by
  have hproject := isProject_sourceProject forgedText
  have hrecord : plainRecord ⟨"/"⟩ [InspectedFile.inspect (sourceProject forgedText) ⟨"/a.ts"⟩] =
      forgedRecord := by
    unfold plainRecord baseRecord FileSummary.rank
    rw [inspect_sourceProject, List.map_singleton, List.mergeSort_singleton]
    decide +kernel
  have hresult := result_sourceProject (c := {}) forgedText
  rw [hrecord] at hresult
  have hread := (read_analyze hproject.root
    (fun target hlink => absurd hlink (hproject.linkFree [fileName] target))
    (hproject.linkFree [draftName]) hresult).2
  exact ⟨hresult, rfl, render forgedRecord, hread, keyFiles_render_forgedRecord⟩

end Analyzer

end DirectoryNotes
