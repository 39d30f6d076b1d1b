import DirectoryNotes.Directory.Analysis
import DirectoryNotes.Proofs.FileTree.Following
import DirectoryNotes.Proofs.Text.Bytes

/-!
# What an analysis sees

An analysis looks at the visible files of its directory, and one that asks nobody at nothing else:

* `mem_shownNames_iff`: which names it looks at;
* `Analyzer.SameFiles`: two trees in which a directory has the same visible files;
* `record_of_sameFiles`: in such trees the directory has the same record, if the latest commits are
  the same; `record_congr` is the case of an analysis that asks nobody;
* `exists_record_iff`: there is a record exactly where the path leads to a directory;
* `exists_write_of_analyze`: an analysis that goes well makes a record and writes its document.
-/

namespace DirectoryNotes

open FileTree

/-! ## Looking at files -/

lemma mergeSort_eq_of_perm {xs ys : List String} (h : xs.Perm ys) :
    xs.mergeSort (· ≤ ·) = ys.mergeSort (· ≤ ·) := by
  have perm : (xs.mergeSort (· ≤ ·)).Perm (ys.mergeSort (· ≤ ·)) :=
    (List.mergeSort_perm xs _).trans (h.trans (List.mergeSort_perm ys _).symm)
  -- sorted lists of the same names are equal
  exact perm.eq_of_pairwise (fun a b _ _ => String.le_antisymm) (Text.pairwise_mergeSort xs)
    (Text.pairwise_mergeSort ys)

namespace InspectedFile

variable {t t' : FileTree} {l k : Location} {p : Path} {bytes : ByteArray} {seconds : Int64}

/-- What is known about a file depends on its path, its bytes and the second of its last change. -/
lemma inspect_congr (h : t.find p = .ok (l, .file bytes seconds))
    (h' : t'.find p = .ok (k, .file bytes seconds)) : inspect t' p = inspect t p := by
  have hmodified : modifiedSecond t' p = modifiedSecond t p := by
    simp only [modifiedSecond, FileTree.modified, h, h']
    rfl
  have hsource : source t' p = source t p := by
    simp only [source, readText_of_find h, readText_of_find h']
  unfold inspect summarize
  rw [hmodified, hsource]

end InspectedFile

/-! ## The visible files -/

namespace Analyzer

variable {a : Analyzer} {t t' : FileTree} {directory : Path} {l : Location} {name : String}

/-- Whether a file of this name is visible in a directory. -/
def shows (a : Analyzer) (directory : Path) (name : String) : Bool :=
  !FileName.isHidden name && a.filter.includesPath (directory.join ⟨name⟩) false

/-- The names of the visible files of a directory, in the order of the tree. -/
def shownNames (a : Analyzer) (t : FileTree) (directory : Path) (l : Location) : List String :=
  (t.children l).filter fun name =>
    !FileName.isHidden name && t.isFile (directory.join ⟨name⟩)
      && a.filter.includesPath (directory.join ⟨name⟩) false

/-- The visible files of a directory are the same in two trees: bytes and last change too. -/
def SameFiles (a : Analyzer) (directory : Path) (l : Location) (t t' : FileTree) : Prop :=
  ∀ name bytes seconds, a.shows directory name = true →
    (t'.entryAt? (l ++ [name]) = some (.file bytes seconds) ↔
      t.entryAt? (l ++ [name]) = some (.file bytes seconds))

lemma visibleFiles_eq (hd : t.find directory = .ok (l, .directory)) :
    a.visibleFiles t directory = .ok (((a.shownNames t directory l).mergeSort (· ≤ ·)).map
      fun name => directory.join ⟨name⟩) := by
  unfold visibleFiles
  rw [listDirectory_of_find hd]
  rfl

/-- A file is visible when its name may be shown and its path may be taken. -/
lemma mem_shownNames_iff (hd : t.find directory = .ok (l, .directory)) (ht : t.WellFormed)
    (hlinks : t.LinkFreeBelow l) :
    name ∈ a.shownNames t directory l ↔
      a.shows directory name = true ∧ (directory.join ⟨name⟩).IsAdmitted ∧
        ∃ bytes seconds, t.entryAt? (l ++ [name]) = some (.file bytes seconds) := by
  unfold shownNames
  rw [List.mem_filter, mem_children_iff]
  simp only [shows, Bool.and_eq_true, Bool.not_eq_true', isFile_iff]
  constructor
  · rintro ⟨hsome, ⟨hhidden, k, bytes, seconds, hfind⟩, hincluded⟩
    obtain ⟨e, he⟩ := Option.isSome_iff_exists.mp hsome
    have hname := (ht.isEntryName he name (by simp)).toIsPlainName
    obtain ⟨hadmitted, -, -, hentry⟩ := (find_join_iff hd hname (hlinks [name])).mp hfind
    exact ⟨⟨hhidden, hincluded⟩, hadmitted, bytes, seconds, hentry⟩
  · rintro ⟨⟨hhidden, hincluded⟩, hadmitted, bytes, seconds, hentry⟩
    have hname := ht.isEntryName hentry name (by simp)
    have hfind := (find_join_iff (k := l ++ [name]) hd hname.toIsPlainName (hlinks [name])).mpr
      ⟨hadmitted, hname.size_le, rfl, hentry⟩
    exact ⟨by simp [hentry], ⟨hhidden, l ++ [name], bytes, seconds, hfind⟩, hincluded⟩

lemma nodup_shownNames (ht : t.WellFormed) : (a.shownNames t directory l).Nodup :=
  (ht.nodup_children l).filter _

section
variable (hd : t.find directory = .ok (l, .directory)) (hd' : t'.find directory = .ok (l, .directory))
  (ht : t.WellFormed) (ht' : t'.WellFormed) (hlinks : t.LinkFreeBelow l)
  (hlinks' : t'.LinkFreeBelow l) (hsame : a.SameFiles directory l t t')
include hd hd' ht ht' hlinks hlinks' hsame

lemma perm_shownNames : (a.shownNames t' directory l).Perm (a.shownNames t directory l) := by
  rw [List.perm_ext_iff_of_nodup (nodup_shownNames ht') (nodup_shownNames ht)]
  intro name
  rw [mem_shownNames_iff hd ht hlinks, mem_shownNames_iff hd' ht' hlinks']
  constructor
  · rintro ⟨hshows, hadmitted, bytes, seconds, hentry⟩
    exact ⟨hshows, hadmitted, bytes, seconds, (hsame name bytes seconds hshows).mp hentry⟩
  · rintro ⟨hshows, hadmitted, bytes, seconds, hentry⟩
    exact ⟨hshows, hadmitted, bytes, seconds, (hsame name bytes seconds hshows).mpr hentry⟩

lemma visibleFiles_congr : a.visibleFiles t' directory = a.visibleFiles t directory := by
  rw [visibleFiles_eq hd, visibleFiles_eq hd',
    mergeSort_eq_of_perm (perm_shownNames hd hd' ht ht' hlinks hlinks' hsame)]

omit ht' in
/-- A visible file looks the same in both trees. -/
lemma inspect_congr_of_mem {paths : List Path} (h : a.visibleFiles t directory = .ok paths) :
    paths.map (InspectedFile.inspect t') = paths.map (InspectedFile.inspect t) := by
  rw [visibleFiles_eq hd] at h
  obtain rfl := Except.ok.inj h
  refine List.map_congr_left fun path hpath => ?_
  obtain ⟨name, hname, rfl⟩ := List.mem_map.mp hpath
  have hshown : name ∈ a.shownNames t directory l := List.mem_mergeSort.mp hname
  obtain ⟨hshows, hadmitted, bytes, seconds, hentry⟩ := (mem_shownNames_iff hd ht hlinks).mp hshown
  have hn := ht.isEntryName hentry name (by simp)
  have hfind := (find_join_iff hd hn.toIsPlainName (hlinks [name])).mpr
    ⟨hadmitted, hn.size_le, rfl, hentry⟩
  have hfind' := (find_join_iff hd' hn.toIsPlainName (hlinks' [name])).mpr
    ⟨hadmitted, hn.size_le, rfl, (hsame name bytes seconds hshows).mpr hentry⟩
  exact InspectedFile.inspect_congr hfind hfind'

end

/-! ## Records -/

/-- A record rests on the visible files, on what they hold, and on the latest commits. -/
lemma record_of_visible (hvisible : a.visibleFiles t' directory = a.visibleFiles t directory)
    (hinspect : ∀ paths, a.visibleFiles t directory = .ok paths →
      paths.map (InspectedFile.inspect t') = paths.map (InspectedFile.inspect t))
    (hchanges : a.recentChanges t' directory = a.recentChanges t directory) :
    a.record t' directory = a.record t directory := by
  unfold record
  rw [hvisible, hchanges]
  cases hpaths : a.visibleFiles t directory with
  | error f => simp only [bind, Except.bind]
  | ok paths =>
    simp only [bind, Except.bind]
    rw [hinspect paths hpaths]

/-- Trees in which a directory has the same visible files and the same latest commits give it the
same record. -/
theorem record_of_sameFiles (hd : t.find directory = .ok (l, .directory))
    (hd' : t'.find directory = .ok (l, .directory)) (ht : t.WellFormed) (ht' : t'.WellFormed)
    (hlinks : t.LinkFreeBelow l) (hlinks' : t'.LinkFreeBelow l)
    (hsame : a.SameFiles directory l t t')
    (hchanges : a.recentChanges t' directory = a.recentChanges t directory) :
    a.record t' directory = a.record t directory :=
  record_of_visible (visibleFiles_congr hd hd' ht ht' hlinks hlinks' hsame)
    (fun _ hpaths => inspect_congr_of_mem hd hd' ht hlinks hlinks' hsame hpaths) hchanges

/-- A directory has a record exactly where its path leads to a directory. -/
theorem exists_record_iff :
    (∃ r, a.record t directory = .ok r) ↔ ∃ l, t.find directory = .ok (l, .directory) := by
  constructor
  · rintro ⟨r, hr⟩
    cases hlist : t.listDirectory directory with
    | error e =>
      unfold record visibleFiles at hr
      rw [hlist] at hr
      cases hr
    | ok names => exact find_of_listDirectory hlist
  · rintro ⟨l, hl⟩
    unfold record
    rw [visibleFiles_eq hl]
    simp only [bind, Except.bind, pure, Except.pure]
    cases a.activeAssistant? <;> exact ⟨_, rfl⟩

lemma path_applySuggestions (assistant : Assistant) (mode : Mode) (r : DirectoryRecord) :
    (applySuggestions assistant mode r).1.path = r.path := by
  unfold applySuggestions
  split
  · dsimp only
    split <;> rfl
  · rfl

/-- The record of a directory is filed under its path. -/
lemma path_of_record {r : DirectoryRecord × List Question} (h : a.record t directory = .ok r) :
    r.1.path = directory := by
  unfold record at h
  cases hpaths : a.visibleFiles t directory with
  | error f =>
    rw [hpaths] at h
    cases h
  | ok paths =>
    rw [hpaths] at h
    simp only [bind, Except.bind, pure, Except.pure] at h
    cases hactive : a.activeAssistant? with
    | none =>
      rw [hactive] at h
      obtain rfl := Except.ok.inj h
      rfl
    | some assistant =>
      rw [hactive] at h
      obtain rfl := Except.ok.inj h
      exact path_applySuggestions assistant a.configuration.mode _

/-- Without an assistant nobody is asked. -/
lemma questions_of_record {r : DirectoryRecord × List Question} (hnobody : a.assistant? = none)
    (h : a.record t directory = .ok r) : r.2 = [] := by
  have hactive : a.activeAssistant? = none := by
    unfold activeAssistant?
    rw [hnobody, Option.filter_none]
  unfold record at h
  cases hpaths : a.visibleFiles t directory with
  | error f =>
    rw [hpaths] at h
    cases h
  | ok paths =>
    rw [hpaths, hactive] at h
    obtain rfl := Except.ok.inj h
    rfl

/-! ## Records without help -/

/-- An analysis that asks neither an assistant nor version control. -/
def offline (configuration : Configuration) (filter : IgnoreFilter) : Analyzer :=
  ⟨configuration, filter, none, .absent⟩

/-- The record that the heuristics make of files. -/
def plainRecord (directory : Path) (files : List InspectedFile) : DirectoryRecord :=
  baseRecord directory (files.map (·.summaryWith none)) (files.filterMap (·.sourceSummary?)) []

variable {c : Configuration} {filter : IgnoreFilter}

/-- Without version control there are no commits to show. -/
lemma recentChanges_absent {a : Analyzer} (h : a.versionControl = .absent) :
    a.recentChanges t directory = [] := by
  unfold recentChanges
  rw [h]
  split <;> rfl

lemma recentChanges_offline : (offline c filter).recentChanges t directory = [] :=
  recentChanges_absent rfl

/-- The record of an analysis that asks nobody rests on its visible files alone. -/
lemma record_offline : (offline c filter).record t directory =
    ((offline c filter).visibleFiles t directory).map fun paths =>
      (plainRecord directory (paths.map (InspectedFile.inspect t)), []) := by
  unfold record
  rw [recentChanges_offline]
  cases (offline c filter).visibleFiles t directory with
  | error f => rfl
  | ok paths => rfl

/-- Trees in which a directory has the same visible files give it the same record. -/
theorem record_congr (hd : t.find directory = .ok (l, .directory))
    (hd' : t'.find directory = .ok (l, .directory)) (ht : t.WellFormed) (ht' : t'.WellFormed)
    (hlinks : t.LinkFreeBelow l) (hlinks' : t'.LinkFreeBelow l)
    (hsame : (offline c filter).SameFiles directory l t t') :
    (offline c filter).record t' directory = (offline c filter).record t directory :=
  record_of_sameFiles hd hd' ht ht' hlinks hlinks' hsame
    (by rw [recentChanges_offline, recentChanges_offline])

/-- The record of a directory is filed under its path, and nobody was asked for it. -/
lemma record_path {r : DirectoryRecord × List Question}
    (h : (offline c filter).record t directory = .ok r) : r.1.path = directory ∧ r.2 = [] :=
  ⟨path_of_record h, questions_of_record rfl h⟩

/-! ## The document -/

/-- An analysis that goes well has made the record that it gives, and has written its document. -/
lemma exists_write_of_analyze {a : Analyzer} {r : DirectoryRecord}
    (h : (a.analyze t directory).result = .ok r) : ∃ questions,
    a.record t directory = .ok (r, questions) ∧ r.path = directory ∧
      Document.write t r = ((a.analyze t directory).tree, .ok ()) := by
  unfold analyze at h ⊢
  cases hrecord : a.record t directory with
  | error f =>
    rw [hrecord] at h
    cases h
  | ok found =>
    obtain ⟨made, questions⟩ := found
    rw [hrecord] at h
    dsimp only at h ⊢
    cases hwrite : (Document.write t made).2 with
    | error f =>
      rw [hwrite] at h
      cases h
    | ok _ =>
      rw [hwrite] at h
      obtain rfl := Except.ok.inj h
      exact ⟨questions, rfl, path_of_record hrecord, Prod.ext rfl hwrite⟩

end Analyzer

end DirectoryNotes
