import DirectoryNotes.Proofs.Assistant.Replies
import DirectoryNotes.Proofs.Directory.VisibleFiles
import Mathlib.Data.List.Forall2

/-!
# What the assistant adds to a record

A record with the assistant's help is the record without it, refined: the assistant can change the
words of a record and nothing else, and where it has nothing to say the heuristics stand.

* `Brings`: what a reply brings in place of what was there;
* `applyInsight_eq`, `applySuggestions_eq`: what each of its replies changes;
* `Analyzer.repliesOn`, `insightOn`, `suggestionsOn`: its replies for a directory;
* `Analyzer.Refines`: how the records with and without help compare;
* `record_refines`: a directory that can be listed has both, and they compare so.
-/

namespace DirectoryNotes

open FileTree

/-- The texts of a list, if there are any. -/
def given? (texts : List String) : Option (List String) := if texts.isEmpty then none else some texts

/-- What a reply brings: an answer that says something takes the place of what was there, and nothing
else does. -/
inductive Brings {α β : Type} (content : α → Option β) (before : β) : Option (Reply α) → β → Prop
  | answer {value : α} {words : β} (h : content value = some words) :
    Brings content before (some (.answer value)) words
  | idle {value : α} (h : content value = none) : Brings content before (some (.answer value)) before
  | failure (reason : Failure) : Brings content before (some (.failure reason)) before
  | silence : Brings content before (some .silence) before
  | unasked : Brings content before none before

lemma brings_getD {α β : Type} (content : α → Option β) (before : β) (reply : Option (Reply α)) :
    Brings content before reply (((reply.bind Reply.value?).bind content).getD before) := by
  cases reply with
  | none => exact .unasked
  | some reply =>
    cases reply with
    | answer value =>
      cases hwords : content value with
      | none => simpa [Reply.value?, hwords] using Brings.idle hwords
      | some words => simpa [Reply.value?, hwords] using Brings.answer hwords
    | failure reason => exact .failure reason
    | silence => exact .silence

/-- An answer that says something brings that. -/
lemma Brings.eq_of_answer {α β : Type} {content : α → Option β} {before now words : β} {value : α}
    (h : Brings content before (some (.answer value)) now) (hwords : content value = some words) :
    now = words := by
  cases h with
  | answer hnow => exact Option.some.inj (hnow.symm.trans hwords)
  | idle hnone => rw [hwords] at hnone; cases hnone

/-- An answer that says nothing changes nothing. -/
lemma Brings.eq_of_idle {α β : Type} {content : α → Option β} {before now : β} {value : α}
    (h : Brings content before (some (.answer value)) now) (hwords : content value = none) :
    now = before := by
  cases h with
  | answer hnow => rw [hwords] at hnow; cases hnow
  | idle => rfl

namespace InspectedFile

variable {file : InspectedFile} {words : Option String}

/-- The words of the assistant stand in the description of a source file and nowhere else. -/
lemma summaryWith_eq : file.summaryWith words =
    { file.summaryWith none with
      description := if file.source?.isSome then words.getD (file.summaryWith none).description
        else (file.summaryWith none).description } := by
  unfold summaryWith
  cases file.source? with
  | none => rfl
  | some found => cases words <;> rfl

lemma summaryWith_name : (file.summaryWith words).name = file.summary.name := by
  unfold summaryWith
  split <;> rfl

lemma summaryWith_importance : (file.summaryWith words).importance = file.summary.importance := by
  unfold summaryWith
  split <;> rfl

/-- The facts of a file are those about the text that is read of it. -/
lemma analyze?_of_source {t : FileTree} {path : Path} {text : String} {facts : SourceFacts}
    (h : source t path = some (text, facts)) : Source.analyze? path text = some facts := by
  unfold source at h
  split at h
  · next content hread =>
    obtain ⟨found, hfound, heq⟩ := Option.map_eq_some_iff.mp h
    obtain ⟨rfl, rfl⟩ := Prod.mk.inj heq
    exact hfound
  · cases h

end InspectedFile

namespace Analyzer

/-! ## What one reply changes -/

lemma orElse_eq (words fallback : String) : orElse words fallback = (said? words).getD fallback := by
  unfold orElse said?
  split <;> rfl

/-- An insight changes what it says something about. -/
lemma applyInsight_eq (record : DirectoryRecord) (insight : Option Insight) :
    applyInsight record (insight.getD {}) =
      { record with
        purpose := (insight.bind fun i => said? i.purpose).getD record.purpose
        architecture := (insight.bind fun i => said? i.architecture).getD record.architecture
        improvements := (insight.bind fun i => given? i.improvements).getD record.improvements } := by
  cases insight with
  | none => rfl
  | some i =>
    simp only [applyInsight, orElse_eq, Option.getD_some, Option.bind_some, given?]
    split <;> rfl

/-- Suggestions take the place of the improvements, if there are any. -/
lemma applySuggestions_eq (assistant : Assistant) (mode : Mode) (record : DirectoryRecord) :
    (applySuggestions assistant mode record).1 =
      { record with
        improvements := ((if mode = .deep then (assistant.suggestImprovements record mode).value?
          else none).bind given?).getD record.improvements } := by
  unfold applySuggestions
  split
  · cases (assistant.suggestImprovements record mode).value? with
    | none => rfl
    | some texts =>
      simp only [Option.getD_some, Option.bind_some, given?]
      split <;> rfl
  · rfl

/-! ## The replies for a directory -/

variable (a : Analyzer) (t : FileTree) (directory : Path) (files : List InspectedFile)

/-- The same analysis with nobody to assist it. -/
def unassisted : Analyzer := { a with assistant? := none }

/-- The replies on the files; there are none when nobody can be asked. -/
def repliesOn : List (Option (Reply String)) :=
  match a.activeAssistant? with
  | some assistant => fileReplies assistant files
  | none => files.map fun _ => none

/-- The files as the assistant describes them. -/
def summariesOf : List FileSummary :=
  files.zipWith (fun file reply => file.summaryWith (reply.bind wordsOf?)) (a.repliesOn files)

/-- The reply on the directory. -/
def insightOn : Option (Reply Insight) :=
  a.activeAssistant?.map fun assistant =>
    assistant.describeDirectory directory (a.summariesOf files) (files.filterMap (·.sourceSummary?))
      a.configuration.mode

/-- The record before the assistant is asked for improvements. -/
def seenRecord : DirectoryRecord :=
  applyInsight
    (baseRecord directory (a.summariesOf files) (files.filterMap (·.sourceSummary?))
      (a.recentChanges t directory))
    (((a.insightOn directory files).bind Reply.value?).getD {})

/-- The reply with improvements, which only one mode asks for. -/
def suggestionsOn : Option (Reply (List String)) :=
  if a.configuration.mode = .deep then
    a.activeAssistant?.map fun assistant =>
      assistant.suggestImprovements (a.seenRecord t directory files) a.configuration.mode
  else none

variable {a t directory files} {paths : List Path}

lemma record_unassisted (hpaths : a.visibleFiles t directory = .ok paths) :
    a.unassisted.record t directory = .ok (baseRecord directory
      ((paths.map (InspectedFile.inspect t)).map (·.summaryWith none))
      ((paths.map (InspectedFile.inspect t)).filterMap (·.sourceSummary?))
      (a.recentChanges t directory), []) := by
  have hunassisted : a.unassisted.visibleFiles t directory = .ok paths := hpaths
  unfold record
  rw [hunassisted]
  rfl

lemma summariesOf_of_none (hactive : a.activeAssistant? = none) :
    a.summariesOf files = files.map (·.summaryWith none) := by
  unfold summariesOf repliesOn
  rw [hactive]
  dsimp only
  rw [List.zipWith_map_right, List.zipWith_self]
  rfl

/-- The record of a directory, by the replies. -/
lemma record_eq (hpaths : a.visibleFiles t directory = .ok paths)
    (hfiles : files = paths.map (InspectedFile.inspect t)) :
    ∃ questions, a.record t directory = .ok ({ a.seenRecord t directory files with
      improvements := (((a.suggestionsOn t directory files).bind Reply.value?).bind given?).getD
        (a.seenRecord t directory files).improvements }, questions) := by
  unfold record
  rw [hpaths]
  simp only [bind, Except.bind, pure, Except.pure]
  rw [← hfiles]
  cases hactive : a.activeAssistant? with
  | none =>
    have hinsight : a.insightOn directory files = none := by
      unfold insightOn
      rw [hactive, Option.map_none]
    have hsuggestions : a.suggestionsOn t directory files = none := by
      unfold suggestionsOn
      rw [hactive, Option.map_none, ite_self]
    -- with no replies the words are those of the heuristics
    refine ⟨[], ?_⟩
    unfold seenRecord
    rw [applyInsight_eq, hinsight, hsuggestions, summariesOf_of_none hactive]
    generalize baseRecord _ _ _ _ = base
    rfl
  | some assistant =>
    have hsuggestions : (a.suggestionsOn t directory files).bind Reply.value? =
        if a.configuration.mode = .deep then (assistant.suggestImprovements
          (a.seenRecord t directory files) a.configuration.mode).value? else none := by
      unfold suggestionsOn
      rw [hactive]
      split <;> rfl
    refine ⟨_, congrArg Except.ok (Prod.ext ?_ rfl)⟩
    rw [hsuggestions]
    refine Eq.trans ?_ (applySuggestions_eq assistant a.configuration.mode _)
    simp only [seenRecord, insightOn, summariesOf, repliesOn, hactive]
    rfl

/-! ## The comparison -/

/-- A file with its reply: the words of an answer that says something describe a source file. -/
def describedBy (file : InspectedFile) (reply : Option (Reply String)) : FileSummary :=
  { file.summaryWith none with
    description :=
      if file.source?.isSome then
        ((reply.bind Reply.value?).bind said?).getD (file.summaryWith none).description
      else (file.summaryWith none).description }

lemma summaryWith_reply (file : InspectedFile) (reply : Option (Reply String)) :
    file.summaryWith (reply.bind wordsOf?) = describedBy file reply := by
  rw [InspectedFile.summaryWith_eq, describedBy]
  cases reply with
  | none => rfl
  | some reply => rw [Option.bind_some, wordsOf?_eq, Option.bind_some]

/-- How a file is described when there is a reply on it: the words on a source file may be those of the
reply, and everything else is as it is without. -/
structure Describes (file : InspectedFile) (reply : Option (Reply String)) (f : FileSummary) :
    Prop where
  rest : f = { file.summaryWith none with description := f.description }
  source : file.source?.isSome →
    Brings said? (file.summaryWith none).description reply f.description
  other : file.source? = none → f = file.summaryWith none

lemma describes_describedBy (file : InspectedFile) (reply : Option (Reply String)) :
    Describes file reply (describedBy file reply) := by
  unfold describedBy
  refine ⟨rfl, fun hsource => ?_, fun hsource => ?_⟩
  · simp only [hsource, if_true]
    exact brings_getD said? _ reply
  · simp [hsource]

variable (a t directory files) in
/-- How a record with the assistant's help compares with the one without. -/
structure Refines (base r : DirectoryRecord) : Prop where
  path : r.path = base.path
  recentChanges : r.recentChanges = base.recentChanges
  dependencies : r.dependencies = base.dependencies
  /-- The same files in the same order, each described by its own reply. -/
  keyFiles : ∃ ranked : List (InspectedFile × Option (Reply String)),
    (∀ x ∈ ranked, x ∈ files.zip (a.repliesOn files)) ∧
    base.keyFiles = (ranked.map fun x => x.1.summaryWith none) ∧
    List.Forall₂ (fun x f => Describes x.1 x.2 f) ranked r.keyFiles
  own : ∀ i reply, (a.repliesOn files)[i]? = some (some reply) ↔
    ∃ assistant file text facts, a.activeAssistant? = some assistant ∧ files[i]? = some file ∧
      file.source? = some (text, facts) ∧ assistant.describeFile file.path text facts = reply ∧
      silentBefore (fileCalls assistant files) i < questionLimit
  purpose : Brings (fun i => said? i.purpose) base.purpose (a.insightOn directory files) r.purpose
  architecture : Brings (fun i => said? i.architecture) base.architecture
    (a.insightOn directory files) r.architecture
  /-- The suggestions come after the insight. -/
  improvements : ∃ seen,
    Brings (fun i => given? i.improvements) base.improvements (a.insightOn directory files) seen ∧
    Brings given? seen (a.suggestionsOn t directory files) r.improvements

lemma length_repliesOn : (a.repliesOn files).length = files.length := by
  unfold repliesOn
  split
  · exact length_fileReplies
  · exact List.length_map ..

lemma getElem?_repliesOn (i : Nat) (reply : Reply String) :
    (a.repliesOn files)[i]? = some (some reply) ↔
      ∃ assistant file text facts, a.activeAssistant? = some assistant ∧ files[i]? = some file ∧
        file.source? = some (text, facts) ∧ assistant.describeFile file.path text facts = reply ∧
        silentBefore (fileCalls assistant files) i < questionLimit := by
  unfold repliesOn
  cases a.activeAssistant? with
  | none =>
    dsimp only
    rw [List.getElem?_map]
    cases files[i]? <;> simp
  | some assistant =>
    dsimp only
    rw [getElem?_fileReplies]
    constructor
    · rintro ⟨⟨file, text, facts, hfile, hsource, hreply⟩, hlt⟩
      exact ⟨assistant, file, text, facts, rfl, hfile, hsource, hreply, hlt⟩
    · rintro ⟨_, file, text, facts, ⟨⟩, hfile, hsource, hreply, hlt⟩
      exact ⟨⟨file, text, facts, hfile, hsource, hreply⟩, hlt⟩

/-- Ranking goes by the importance alone, so it can be done before the summaries are made. -/
lemma rank_map {α : Type} (xs : List α) (f : α → FileSummary) (importance : α → UInt8)
    (hf : ∀ x, (f x).importance = importance x) :
    FileSummary.rank (xs.map f) =
      ((xs.mergeSort fun x y => importance y ≤ importance x).take FileSummary.rankLimit).map f := by
  unfold FileSummary.rank
  rw [List.map_take, List.map_mergeSort]
  intro x _ y _
  rw [hf, hf]

lemma map_zip_repliesOn {α : Type} (f : InspectedFile → α) :
    ((files.zip (a.repliesOn files)).map fun x => f x.1) = files.map f := by
  have hfirst : (files.zip (a.repliesOn files)).map Prod.fst = files :=
    List.map_fst_zip (Nat.le_of_eq length_repliesOn.symm)
  calc ((files.zip (a.repliesOn files)).map fun x => f x.1)
      = ((files.zip (a.repliesOn files)).map Prod.fst).map f := by rw [List.map_map]; rfl
    _ = files.map f := by rw [hfirst]

lemma summariesOf_eq : a.summariesOf files =
    (files.zip (a.repliesOn files)).map fun x => describedBy x.1 x.2 := by
  unfold summariesOf
  rw [← List.map_uncurry_zip_eq_zipWith]
  refine List.map_congr_left fun x _ => ?_
  exact summaryWith_reply x.1 x.2

/-- Apart from the ranking, the heuristics look at the names of the files only. -/
lemma baseRecord_summariesOf (sources : List SourceSummary) (changes : List Change) :
    baseRecord directory (a.summariesOf files) sources changes =
      { baseRecord directory (files.map (·.summaryWith none)) sources changes with
        keyFiles := FileSummary.rank (a.summariesOf files) } := by
  have hnames : (a.summariesOf files).map (·.name) =
      (files.map (·.summaryWith none)).map (·.name) := by
    rw [summariesOf_eq, List.map_map, List.map_map, ← map_zip_repliesOn (a := a)]
    rfl
  simp only [baseRecord, hnames]

/-- The two rankings keep the same files in the same order. -/
lemma exists_ranked : ∃ ranked : List (InspectedFile × Option (Reply String)),
    (∀ x ∈ ranked, x ∈ files.zip (a.repliesOn files)) ∧
    FileSummary.rank (files.map (·.summaryWith none)) =
      (ranked.map fun x => x.1.summaryWith none) ∧
    FileSummary.rank (a.summariesOf files) = ranked.map fun x => describedBy x.1 x.2 := by
  -- the importance of a file is known before its words, so files are ranked with their replies
  refine ⟨((files.zip (a.repliesOn files)).mergeSort fun x y =>
      y.1.summary.importance ≤ x.1.summary.importance).take FileSummary.rankLimit,
    fun x hx => List.mem_mergeSort.mp (List.mem_of_mem_take hx), ?_, ?_⟩
  · rw [← map_zip_repliesOn (a := a)]
    exact rank_map _ _ _ fun x => InspectedFile.summaryWith_importance
  · rw [summariesOf_eq]
    exact rank_map _ _ _ fun x => InspectedFile.summaryWith_importance

/-- Every directory that can be listed has a record, whatever the assistant and version control do.
The assistant's part in it is the words of its own replies, where they say something. -/
theorem record_refines (a : Analyzer) (t : FileTree) (directory : Path) {names : List String}
    (h : t.listDirectory directory = .ok names) :
    ∃ paths base r questions, a.visibleFiles t directory = .ok paths ∧
      a.unassisted.record t directory = .ok (base, []) ∧
      a.record t directory = .ok (r, questions) ∧
      a.Refines t directory (paths.map (InspectedFile.inspect t)) base r ∧
      ((∀ repository commits, repositoryRoot? t directory = some repository →
        a.versionControl.recentCommits repository changeLimit ≠ .answer commits) →
          r.recentChanges = []) := by
  obtain ⟨paths, hpaths⟩ : ∃ paths, a.visibleFiles t directory = .ok paths :=
    ⟨_, by rw [visibleFiles, h]; rfl⟩
  generalize hfiles : paths.map (InspectedFile.inspect t) = files
  obtain ⟨questions, hrecord⟩ := record_eq hpaths hfiles.symm
  have hbase := record_unassisted hpaths
  rw [hfiles] at hbase
  unfold seenRecord at hrecord
  rw [applyInsight_eq, baseRecord_summariesOf] at hrecord
  have hchanges : (baseRecord directory (files.map (·.summaryWith none))
      (files.filterMap (·.sourceSummary?)) (a.recentChanges t directory)).recentChanges =
        a.recentChanges t directory := rfl
  have hranked : ∃ ranked : List (InspectedFile × Option (Reply String)),
      (∀ x ∈ ranked, x ∈ files.zip (a.repliesOn files)) ∧
      (baseRecord directory (files.map (·.summaryWith none))
        (files.filterMap (·.sourceSummary?)) (a.recentChanges t directory)).keyFiles =
          (ranked.map fun x => x.1.summaryWith none) ∧
      FileSummary.rank (a.summariesOf files) = ranked.map fun x => describedBy x.1 x.2 :=
    exists_ranked
  -- from here on the record of the heuristics is any record with these files and changes
  generalize baseRecord _ _ _ _ = base at hbase hrecord hchanges hranked
  refine ⟨paths, base, _, questions, hpaths, hbase, hrecord, ?_, fun hsilent => ?_⟩
  · rw [hfiles]
    obtain ⟨ranked, hmem, hbefore, hafter⟩ := hranked
    constructor
    case path | recentChanges | dependencies => rfl
    case keyFiles =>
      refine ⟨ranked, hmem, hbefore, ?_⟩
      dsimp only
      rw [hafter, List.forall₂_map_right_iff, List.forall₂_same]
      exact fun x _ => describes_describedBy x.1 x.2
    case own => exact getElem?_repliesOn
    case purpose => exact brings_getD _ _ _
    case architecture => exact brings_getD _ _ _
    case improvements => exact ⟨_, brings_getD _ _ _, brings_getD _ _ _⟩
  · refine hchanges.trans ?_
    unfold recentChanges
    cases hroot : repositoryRoot? t directory with
    | none => rfl
    | some repository =>
      have hnone : (a.versionControl.recentCommits repository changeLimit).value? = none := by
        cases hreply : a.versionControl.recentCommits repository changeLimit with
        | answer commits => exact absurd hreply (hsilent repository commits hroot)
        | failure reason => rfl
        | silence => rfl
      simp only [hnone]
      rfl

/-- An assistant that has something to say on everything but the architecture. -/
def describer : Assistant where
  isAvailable := true
  describeFile _ _ _ := .answer " Adds numbers.\n"
  describeDirectory _ _ _ _ := .answer { purpose := "Sums.", architecture := " " }
  suggestImprovements _ _ := .answer ["Add tests."]

/-- A tree with one source file. -/
def oneSource : FileTree where
  entries := [(["add.ts"], .file "export const one = 1".toUTF8 1)]

lemma find_oneSource :
    oneSource.find ⟨"/add.ts"⟩ = .ok (["add.ts"], .file "export const one = 1".toUTF8 1) := by
  have hname : IsEntryName "add.ts" := by decide +kernel
  have hjoin : (⟨"/"⟩ : Path).join ⟨"add.ts"⟩ = ⟨"/add.ts"⟩ := by decide
  have hentry : oneSource.entryAt? ([] ++ ["add.ts"]) = some (.file "export const one = 1".toUTF8 1) :=
    rfl
  rw [← hjoin]
  exact (find_join_iff (find_slash _) hname.toIsPlainName (fun _ h => by cases hentry.symm.trans h)).mpr
    ⟨by decide +kernel, hname.size_le, rfl, hentry⟩

lemma visibleFiles_oneSource {a : Analyzer} (hfilter : a.filter = ⟨⟨"/"⟩, []⟩) :
    a.visibleFiles oneSource ⟨"/"⟩ = .ok [⟨"/add.ts"⟩] := by
  have hjoin : (⟨"/"⟩ : Path).join ⟨"add.ts"⟩ = ⟨"/add.ts"⟩ := by decide
  have hchildren : oneSource.children [] = ["add.ts"] := rfl
  have hfile : oneSource.isFile ⟨"/add.ts"⟩ = true := isFile_iff.mpr ⟨_, _, _, find_oneSource⟩
  have hincluded : a.filter.includesPath ⟨"/add.ts"⟩ false = true := by
    rw [hfilter]
    decide
  have hhidden : FileName.isHidden "add.ts" = false := by decide
  have hshown : a.shownNames oneSource ⟨"/"⟩ [] = ["add.ts"] := by
    unfold shownNames
    simp only [hchildren, List.filter_cons, hjoin, hfile, hincluded, hhidden, Bool.not_false,
      Bool.and_self, if_true, List.filter_nil]
  rw [visibleFiles_eq (find_slash _), hshown, List.mergeSort_singleton, List.map_singleton, hjoin]

lemma exists_source_oneSource :
    ∃ facts, InspectedFile.source oneSource ⟨"/add.ts"⟩ = some ("export const one = 1", facts) := by
  have htext : String.fromUTF8? "export const one = 1".toUTF8 = some "export const one = 1" := by
    decide
  obtain ⟨facts, hfacts⟩ : ∃ facts, Source.analyze? ⟨"/add.ts"⟩ "export const one = 1" = some facts :=
    ⟨_, if_pos (by decide)⟩
  refine ⟨facts, ?_⟩
  unfold InspectedFile.source
  rw [readText_of_find find_oneSource, htext]
  simp only [hfacts, Option.map_some]

/-- What the assistant says is in the record; its blank words on the architecture leave that to the
heuristics. -/
theorem record_refines_describer :
    oneSource.listDirectory ⟨"/"⟩ = .ok ["add.ts"] ∧
      ∃ base r questions,
        (Analyzer.mk { mode := .deep } ⟨⟨"/"⟩, []⟩ none .absent).record oneSource ⟨"/"⟩ =
          .ok (base, []) ∧
        (Analyzer.mk { mode := .deep } ⟨⟨"/"⟩, []⟩ (some describer) .absent).record oneSource
          ⟨"/"⟩ = .ok (r, questions) ∧
        r.keyFiles.map (·.description) = ["Adds numbers."] ∧ r.purpose = "Sums." ∧
        r.architecture = base.architecture ∧ r.improvements = ["Add tests."] := by
  have hlist : oneSource.listDirectory ⟨"/"⟩ = .ok ["add.ts"] :=
    FileTree.listDirectory_of_find (FileTree.find_slash oneSource)
  obtain ⟨paths, base, r, questions, hpaths, hbase, hr, hrefines, -⟩ :=
    record_refines ⟨{ mode := .deep }, ⟨⟨"/"⟩, []⟩, some describer, .absent⟩ oneSource ⟨"/"⟩ hlist
  obtain rfl : paths = [⟨"/add.ts"⟩] :=
    Except.ok.inj (hpaths.symm.trans (visibleFiles_oneSource rfl))
  refine ⟨hlist, base, r, questions, hbase, hr, ?_, hrefines.purpose.eq_of_answer (by decide),
    hrefines.architecture.eq_of_idle (by decide), ?_⟩
  · obtain ⟨facts, hsource⟩ := exists_source_oneSource
    have hreplies : (Analyzer.mk { mode := .deep } ⟨⟨"/"⟩, []⟩ (some describer) .absent).repliesOn
        [InspectedFile.inspect oneSource ⟨"/add.ts"⟩] = [some (.answer " Adds numbers.\n")] := by
      unfold repliesOn InspectedFile.inspect
      rw [hsource]
      rfl
    have hplain : base.keyFiles =
        [(InspectedFile.inspect oneSource ⟨"/add.ts"⟩).summaryWith none] := by
      have hunassisted := record_unassisted hpaths
      rw [hunassisted] at hbase
      obtain ⟨rfl, -⟩ := Prod.mk.inj (Except.ok.inj hbase)
      show FileSummary.rank _ = _
      rw [FileSummary.rank, List.map_singleton, List.map_singleton, List.mergeSort_singleton]
      rfl
    obtain ⟨ranked, hmem, hbefore, hafter⟩ := hrefines.keyFiles
    have hlength : ranked.length = 1 := by
      rw [← List.length_map, ← hbefore, hplain, List.length_singleton]
    obtain ⟨x, rfl⟩ := List.length_eq_one_iff.mp hlength
    rw [List.map_singleton, hreplies] at hmem
    obtain rfl := List.mem_singleton.mp (hmem x (List.mem_singleton_self x))
    obtain ⟨f, rest, hdescribes, hrest, hkept⟩ := List.forall₂_cons_left_iff.mp hafter
    obtain rfl := List.forall₂_nil_left_iff.mp hrest
    have hisSome : (InspectedFile.inspect oneSource ⟨"/add.ts"⟩).source?.isSome := by
      rw [InspectedFile.inspect, hsource, Option.isSome_some]
    have hsaid : said? " Adds numbers.\n" = some "Adds numbers." := by decide
    rw [hkept, List.map_singleton, (hdescribes.source hisSome).eq_of_answer hsaid]
  · obtain ⟨seen, -, hsuggestions⟩ := hrefines.improvements
    exact hsuggestions.eq_of_answer rfl

end Analyzer

end DirectoryNotes
