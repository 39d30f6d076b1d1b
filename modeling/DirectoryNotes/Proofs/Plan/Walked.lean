import DirectoryNotes.Proofs.Ignore.Nearest
import DirectoryNotes.Proofs.Plan

/-!
# Changes and the walk

The directories that changes lead to and those that a walk lists are chosen by the same filter, but a
walk asks it about each directory on the way and does not enter what is left out, while a change asks
it only about where it lies.

* `exists_names_of_affectedDirectory?`: where a change leads, in whichever way its path is written;
* `mem_affectedDirectories_walked`: the walk lists such a directory exactly if nothing on the way is
  left out, and where something is, a rule includes again what lies below.
-/

namespace DirectoryNotes

open FileTree

variable {t : FileTree} {root path rest d : Path} {l k : Location} {filter : IgnoreFilter}
  {names : List String} {segments : List (List Char)}

/-! ## Where a change leads -/

/-- What is left of a changed path below the root has segments without idle ends. -/
lemma exists_isTight_of_changedFromRoot? (hroot : t.find root = .ok (l, .directory))
    (h : changedFromRoot? t root path = some rest) :
    ∃ segments, Path.IsTight segments ∧ rest = .ofOpened .plain segments := by
  unfold changedFromRoot? at h
  split at h
  · next heq =>
    obtain rfl := Option.some.inj h
    exact Path.exists_isTight_of_relativeTo? (text_ne_empty_of_find hroot) heq
  · split at h
    · next hreal => exact Path.exists_isTight_of_relativeTo? (text_ne_empty_of_realPath hreal) h
    · cases h

/-- Without links below the root, a relative path of names leads down by these names. -/
lemma location_of_join (ht : t.IsProject root l) (htight : Path.IsTight segments)
    (hne : segments ≠ []) (hnames : segments.filterMap PathPart.ofSegment? = names.map .name)
    {e : Entry} (h : t.find (root.join (.ofOpened .plain segments)) = .ok (k, e)) :
    k = l ++ names := by
  have hrelative := Path.isAbsolute_ofOpened_plain htight
  obtain ⟨before, idle, hidle, h1, h2⟩ := segments_join root hrelative
  rw [Path.pieces_ofOpened_plain htight hne] at h2
  have hbefore := (leadsInto_of_find ht.root).walk_before hidle h1
  have hstart := startOf_join root hrelative t.workingDirectory
  obtain ⟨left, -, hwalk⟩ := walk_append t linkLimit (startOf root.text t.workingDirectory) before
    (segments.map String.ofList)
  obtain ⟨hlocate, -⟩ := find_eq_ok_iff.mp h
  rw [locate_of_admitted t (isAdmitted_of_find h), hstart, h2, hwalk, hbefore] at hlocate
  exact walk_of_names hnames (fun front _ => ht.linkFree front) hlocate

/-- The directory at a relative path of names is the root continued by these names. -/
lemma find_of_joined (ht : t.IsProject root l) (htight : Path.IsTight segments)
    (hplain : ∀ n ∈ names, IsPlainName n)
    (hnames : segments.filterMap PathPart.ofSegment? = names.map .name)
    (hd : d = if (Path.ofOpened .plain segments).isEmpty then root
      else root.join (.ofOpened .plain segments))
    (hdirectory : t.isDirectory d = true) :
    d.parts = (root.follow names).parts ∧ t.find d = .ok (l ++ names, .directory) := by
  have hroot := text_ne_empty_of_find ht.root
  rw [Path.isEmpty_ofOpened_plain htight] at hd
  rw [Path.parts_follow root hplain]
  by_cases hne : segments = []
  · -- no segments, no names
    rw [hne, List.filterMap_nil, eq_comm, List.map_eq_nil_iff] at hnames
    rw [if_pos (by simpa using hne)] at hd
    rw [hd, hnames, List.map_nil, List.append_nil, List.append_nil]
    exact ⟨rfl, ht.root⟩
  · rw [if_neg (by simpa using hne)] at hd
    subst hd
    obtain ⟨k, hk⟩ := isDirectory_iff.mp hdirectory
    obtain rfl := location_of_join ht htight hne hnames hk
    have hparts := Path.parts_join hroot (Path.isAbsolute_ofOpened_plain htight)
    rw [Path.pieces_ofOpened_plain htight hne, hnames] at hparts
    exact ⟨hparts, hk⟩

/-- Where a change leads: to a directory of names below the root that are not hidden, and which the
filter includes. The file system takes the path of the names too. -/
lemma exists_names_of_affectedDirectory? (ht : t.IsProject root l)
    (h : affectedDirectory? t root filter path = some d) :
    ∃ names, (∀ n ∈ names, IsPlainName n ∧ FileName.isHidden n = false) ∧
      d.parts = (root.follow names).parts ∧ t.find d = .ok (l ++ names, .directory) ∧
      filter.includes (.ofNames names) true = true ∧ (root.follow names).IsAdmitted := by
  unfold affectedDirectory? at h
  obtain ⟨rest, hrest, h⟩ := Option.bind_eq_some_iff.mp h
  obtain ⟨segments, htight, rfl⟩ := exists_isTight_of_changedFromRoot? ht.root hrest
  obtain ⟨above, habove, hparent, hparts⟩ := Path.exists_isTight_parent htight
  dsimp only at h
  rw [hparent] at h
  obtain ⟨hcond, hd⟩ := Option.ite_none_right_eq_some.mp h
  rw [Option.some.inj hd] at hcond
  simp only [Bool.and_eq_true, Bool.not_eq_true'] at hcond
  obtain ⟨⟨⟨hhidden, -⟩, hincluded⟩, hdirectory⟩ := hcond
  -- the parts of the directory are those of the change without the last one
  have hvisible : ∀ part ∈ above.filterMap PathPart.ofSegment?,
      part ≠ .up ∧ ∀ n, part = .name n → FileName.isHidden n = false := by
    intro part hpart
    rw [hparts] at hpart
    have hmem := (List.dropLast_sublist _).subset hpart
    rw [hasHiddenPart, Path.parts_ofOpened_plain htight, List.any_eq_false] at hhidden
    have hshown := hhidden part hmem
    constructor
    · rintro rfl
      exact hshown rfl
    · rintro n rfl
      simpa using hshown
  obtain ⟨names, hplain, hnames, hsegments⟩ :=
    Path.exists_names habove fun hup => (hvisible .up hup).1 rfl
  obtain ⟨hdparts, hfind⟩ :=
    find_of_joined ht habove hplain hnames (Option.some.inj hd).symm hdirectory
  rw [IgnoreFilter.includes_ofOpened_plain filter habove hsegments] at hincluded
  have hadmitted : (root.follow names).IsAdmitted := by
    refine isAdmitted_of_sublist (text_follow_ne_empty (text_ne_empty_of_find ht.root) hplain) ?_
      (isAdmitted_of_find hfind)
    have hd := (Option.some.inj hd).symm
    rw [Path.isEmpty_ofOpened_plain habove] at hd
    by_cases hne : above = []
    · rw [hne, List.filter_nil, eq_comm, List.map_eq_nil_iff] at hsegments
      rw [hd, hsegments, if_pos (by simpa using hne)]
      exact List.Sublist.refl _
    · rw [hd, if_neg (by simpa using hne)]
      exact Path.follow_sublist_join habove root hplain hsegments
  refine ⟨names, ?_, hdparts, hfind, hincluded, hadmitted⟩
  intro n hn
  have hpart : PathPart.name n ∈ above.filterMap PathPart.ofSegment? := by
    rw [hnames]
    exact List.mem_map_of_mem hn
  exact ⟨hplain n hn, (hvisible _ hpart).2 n rfl⟩

/-! ## The walk -/

/-- The walk lists a directory of the project whose path is short enough exactly if no name on the way
is hidden, and no directory on the way left out. -/
lemma exists_mem_walk_iff (ht : t.IsProject root l) (hn : ∀ n ∈ names, IsPlainName n)
    (hparts : d.parts = (root.follow names).parts)
    (hentry : t.entryAt? (l ++ names) = some .directory)
    (hadmitted : (root.follow names).IsAdmitted) :
    (∃ d' ∈ walk t filter root, d'.parts = d.parts) ↔ filter.Passes names := by
  rw [hparts]
  constructor
  · intro ⟨d', hd', heq⟩
    obtain ⟨names', rfl, hentry', -, hpasses⟩ := (mem_walk_iff ht).mp hd'
    have hn' : ∀ n ∈ names', IsPlainName n := fun n hmem =>
      (ht.wellFormed.isEntryName hentry' n (List.mem_append_right _ hmem)).toIsPlainName
    rwa [← Path.follow_inj hn' hn heq]
  · intro hpasses
    have habove := admitsAbove_of_admitted (text_ne_empty_of_find ht.root) hn hadmitted
    exact ⟨root.follow names, (mem_walk_iff ht).mpr ⟨names, rfl, hentry, habove, hpasses⟩, rfl⟩

/-- A change leads to a directory of the project that is not hidden and that the filter includes. The
walk lists this directory exactly if the filter includes each directory on the way to it as well. One
that is left out lies there only where a rule includes again what is below it. -/
theorem mem_affectedDirectories_walked {paths : List Path} (ht : t.IsProject root l)
    (hd : d ∈ affectedDirectories t root filter paths) :
    ∃ names, (∀ n ∈ names, IsPlainName n ∧ FileName.isHidden n = false) ∧
      d.parts = (root.follow names).parts ∧ t.find d = .ok (l ++ names, .directory) ∧
      filter.includes (.ofNames names) true = true ∧
      ((∃ d' ∈ walk t filter root, d'.parts = d.parts) ↔ ∀ front, front <+: names → front ≠ [] →
        filter.includes (.ofNames front) true = true) ∧
      (filter.root.isAbsolute = true → ∀ front, front <+: names →
        filter.includes (.ofNames front) true = false → filter.TakesBack front names) := by
  obtain ⟨path, -, hpath⟩ := List.mem_filterMap.mp (PathSet.mem_of_mem_ofList hd)
  obtain ⟨names, hnames, hparts, hfind, hincluded, hadmitted⟩ :=
    exists_names_of_affectedDirectory? ht hpath
  have hplain : ∀ n ∈ names, IsPlainName n := fun n hn => (hnames n hn).1
  have hentry := (find_eq_ok_iff.mp hfind).2
  refine ⟨names, hnames, hparts, hfind, hincluded, ?_, ?_⟩
  · rw [exists_mem_walk_iff ht hplain hparts hentry hadmitted]
    constructor
    · exact fun hpasses => hpasses.included
    · exact fun hall => ⟨fun n hn => (hnames n hn).2, hall⟩
  · intro hroot front hfront hexcluded
    exact IgnoreFilter.takesBack_of_includes hroot hfront hplain hexcluded hincluded

/-! ## A directory that is included again -/

/-- A file two directories below the root. -/
def buildProject : FileTree where
  entries := [(["build"], .directory), (["build", "keep"], .directory),
    (["build", "keep", "x.ts"], .file .empty 1)]

/-- One directory is left out, and one in it is included again. -/
def keepPatterns : List String := ["build/", "!build/keep/"]

lemma isProject_buildProject : buildProject.IsProject ⟨"/"⟩ [] :=
  ⟨by decide, find_slash buildProject, linkFreeBelow_of_entries (by decide) []⟩

lemma exists_keepFilter : ∃ filter, IgnoreFilter.ofPatterns ⟨"/"⟩ keepPatterns = .ok filter ∧
    filter.root.isAbsolute = true ∧
    filter.includes (.ofNames ["build"]) true = false ∧
    filter.includes (.ofNames ["build", "keep"]) true = true ∧
    filter.includes (.ofNames ["build", "keep", "x.ts"]) false = true := by
  have hchecked : (IgnoreFilter.ofPatterns ⟨"/"⟩ keepPatterns).toOption.any (fun filter =>
      filter.root.isAbsolute && !filter.includes (.ofNames ["build"]) true &&
      filter.includes (.ofNames ["build", "keep"]) true &&
      filter.includes (.ofNames ["build", "keep", "x.ts"]) false) = true := by
    decide +kernel
  cases hfilter : IgnoreFilter.ofPatterns ⟨"/"⟩ keepPatterns with
  | error reason =>
    rw [hfilter] at hchecked
    cases hchecked
  | ok filter =>
    rw [hfilter] at hchecked
    simp only [Except.toOption, Option.any_some, Bool.and_eq_true, Bool.not_eq_true'] at hchecked
    obtain ⟨⟨⟨habsolute, hbuild⟩, hkeep⟩, hfile⟩ := hchecked
    exact ⟨filter, rfl, habsolute, hbuild, hkeep, hfile⟩

lemma mem_affected_buildProject
    (hkeep : filter.includes (.ofNames ["build", "keep"]) true = true)
    (hfile : filter.includes (.ofNames ["build", "keep", "x.ts"]) false = true) :
    (⟨"/"⟩ : Path).follow ["build", "keep"] ∈
      affectedDirectories buildProject ⟨"/"⟩ filter [⟨"/build/keep/x.ts"⟩] := by
  have hspells : Spells ⟨"/"⟩ [] [["build", "keep", "x.ts"]] [⟨"/build/keep/x.ts"⟩] :=
    spells_singleton (.inl (by decide))
  have hstored : ∀ w ∈ [["build", "keep", "x.ts"]], ∃ bytes seconds,
      buildProject.entryAt? ([] ++ w) = some (.file bytes seconds) := by
    intro w hw
    rw [List.mem_singleton.mp hw]
    exact ⟨.empty, 1, rfl⟩
  have hleads : buildProject.LeadsInto ((⟨"/"⟩ : Path).follow ["build", "keep"]) ["build", "keep"] :=
    isProject_buildProject.leadsInto_follow rfl
  have hdirectory : buildProject.isDirectory ((⟨"/"⟩ : Path).follow ["build", "keep"]) = true :=
    isDirectory_iff.mpr ⟨_, hleads.find (by decide)⟩
  rw [mem_affectedDirectories_iff isProject_buildProject (by simp) hstored hspells]
  exact ⟨_, List.mem_singleton.mpr rfl, rfl, by decide, hfile, hkeep, hdirectory⟩

/-- The rule that takes back what the first one leaves out. -/
theorem takesBack_buildProject : ∃ filter,
    IgnoreFilter.ofPatterns ⟨"/"⟩ keepPatterns = .ok filter ∧
      (⟨"/"⟩ : Path).follow ["build", "keep"] ∈
        affectedDirectories buildProject ⟨"/"⟩ filter [⟨"/build/keep/x.ts"⟩] ∧
      filter.TakesBack ["build"] ["build", "keep"] := by
  obtain ⟨filter, hfilter, habsolute, hbuild, hkeep, hfile⟩ := exists_keepFilter
  have hd := mem_affected_buildProject hkeep hfile
  refine ⟨filter, hfilter, hd, ?_⟩
  obtain ⟨names, hnames, hparts, -, -, -, htakesBack⟩ :=
    mem_affectedDirectories_walked isProject_buildProject hd
  have hplain : ∀ n ∈ names, IsPlainName n := fun n hn => (hnames n hn).1
  have hkept : ∀ n ∈ ["build", "keep"], IsPlainName n := by decide
  rw [← Path.follow_inj hkept hplain hparts] at htakesBack
  exact htakesBack habsolute ["build"] (List.prefix_append ["build"] ["keep"]) hbuild

/-- A change leads to a directory that the walk does not list. -/
theorem affected_not_walked : ∃ filter,
    IgnoreFilter.ofPatterns ⟨"/"⟩ keepPatterns = .ok filter ∧ buildProject.IsProject ⟨"/"⟩ [] ∧
      ∃ d ∈ affectedDirectories buildProject ⟨"/"⟩ filter [⟨"/build/keep/x.ts"⟩],
        ∀ d' ∈ walk buildProject filter ⟨"/"⟩, d'.parts ≠ d.parts := by
  obtain ⟨filter, hfilter, -, hbuild, hkeep, hfile⟩ := exists_keepFilter
  refine ⟨filter, hfilter, isProject_buildProject, _, mem_affected_buildProject hkeep hfile, ?_⟩
  intro d' hd' heq
  have hkept : ∀ n ∈ ["build", "keep"], IsPlainName n := by decide
  have hpasses :=
    (exists_mem_walk_iff isProject_buildProject hkept rfl rfl (by decide)).mp ⟨d', hd', heq⟩
  have hincluded := hpasses.included ["build"] (List.prefix_append ["build"] ["keep"]) (by simp)
  rw [hbuild] at hincluded
  cases hincluded

end DirectoryNotes
