import DirectoryNotes.Proofs.Command.Writes
import DirectoryNotes.Proofs.Directory.Rerun
import DirectoryNotes.Proofs.VersionControl.Repositories

/-!
# Refreshing what was set up

A project that was set up is documented, so a refresh of everything changes nothing in it:

* `ignorePatterns_configuration`: the patterns that a project is set up with;
* `Session.setUp`, `setUpProject_eq`: the configuration that is saved, and the directories of the
  first analysis. `load_of_setUp` and `plan_of_setUp` say that a refresh finds both again;
* `refresh_after_setUp`: what the refresh leaves.
-/

namespace DirectoryNotes

open FileTree FileError Document Analyzer

/-! ## Patterns -/

/-- Patterns that are not there yet are added behind those that are, each once. -/
lemma foldl_append_new (given patterns : List String) :
    given.foldl (fun patterns p => if patterns.contains p then patterns else patterns ++ [p])
        patterns =
      patterns ++ (given.filter fun p => !patterns.contains p).eraseDups := by
  induction given generalizing patterns with
  | nil => simp
  | cons p rest ih =>
    rw [List.foldl_cons, ih]
    by_cases hp : patterns.contains p
    · rw [if_pos hp, List.filter_cons_of_neg (by simpa using hp)]
    · -- of the patterns behind it, those that are equal to it go away with those that were there
      have hnew : (rest.filter fun q => !(patterns ++ [p]).contains q) =
          (rest.filter fun q => !patterns.contains q).filter fun q => !q == p := by
        rw [List.filter_filter]
        refine List.filter_congr fun q _ => ?_
        rw [List.contains_append, List.contains_cons, List.contains_nil, Bool.or_false, Bool.not_or,
          Bool.and_comm]
      rw [if_neg hp, hnew, List.filter_cons_of_pos (by simpa using hp), List.eraseDups_cons,
        List.append_assoc, List.singleton_append]

/-- A project is set up with the default patterns and the new ones among those that were given, in
the order in which they come first. -/
lemma ignorePatterns_configuration (options : InitOptions) :
    options.configuration.ignorePatterns = defaultIgnorePatterns ++
      (options.ignorePatterns.filter fun p => !defaultIgnorePatterns.contains p).eraseDups :=
  foldl_append_new options.ignorePatterns defaultIgnorePatterns

/-! ## What is set up -/

variable {s later : Session} {t saved : FileTree} {root : Path} {l : Location}
  {options : InitOptions} {a : Analyzer} {directories : PathSet}

/-- The tree with the configuration, and what the first analysis goes by and covers. -/
def Session.setUp (s : Session) (root : Path) (options : InitOptions) :
    Except Failure (FileTree × Analyzer × PathSet) := do
  let c := options.configuration
  let filter ← IgnoreFilter.ofPatterns root c.ignorePatterns
  let saved ← c.save s.tree root
  return (saved, s.analyzer c filter, .ofList (walk saved filter root))

lemma setUp_eq_ok_iff : s.setUp root options = .ok (saved, a, directories) ↔
    ∃ filter, IgnoreFilter.ofPatterns root options.configuration.ignorePatterns = .ok filter ∧
      options.configuration.save s.tree root = .ok saved ∧
        a = s.analyzer options.configuration filter ∧
          directories = .ofList (walk saved filter root) := by
  unfold Session.setUp
  simp only [bind_eq_ok_iff, pure, Except.pure, Except.ok.injEq, Prod.mk.injEq]
  constructor
  · rintro ⟨filter, hfilter, _, hsaved, rfl, rfl, rfl⟩
    exact ⟨filter, hfilter, hsaved, rfl, rfl⟩
  · rintro ⟨filter, hfilter, hsaved, rfl, rfl⟩
    exact ⟨filter, hfilter, saved, hsaved, rfl, rfl, rfl⟩

/-- Setting up that goes well has documented directories of the tree with the configuration. -/
lemma exists_setUp (h : (setUpProject s root options).failure? = none) :
    ∃ saved a directories, s.setUp root options = .ok (saved, a, directories) ∧
      (setUpProject s root options).tree = (a.analyzeEach saved directories).1 := by
  unfold setUpProject at h ⊢
  cases hfilter : IgnoreFilter.ofPatterns root options.configuration.ignorePatterns with
  | error f => simp [hfilter, CommandResult.failed] at h
  | ok filter =>
    cases hsaved : options.configuration.save s.tree root with
    | error f => simp [hfilter, hsaved, CommandResult.failed] at h
    | ok saved =>
      exact ⟨saved, _, _, setUp_eq_ok_iff.mpr ⟨filter, hfilter, hsaved, rfl, rfl⟩, by
        simp only [hfilter, hsaved, CommandResult.done]⟩

section
variable (ht : s.tree.IsProject root l) (h : s.setUp root options = .ok (saved, a, directories))
include ht h

lemma stores_of_setUp : s.tree.Stores saved l [[Configuration.fileName]] := by
  obtain ⟨filter, -, hsaved, -⟩ := setUp_eq_ok_iff.mp h
  exact Configuration.stores_of_save ht hsaved

/-- The configuration is no draft, so there are no more drafts than before. -/
lemma drafts_of_setUp (hdrafts : ∀ names, s.tree.entryAt? (l ++ names ++ [draftName]) = none)
    (names : Location) : saved.entryAt? (l ++ names ++ [draftName]) = none := by
  obtain ⟨filter, -, hsaved, -⟩ := setUp_eq_ok_iff.mp h
  obtain ⟨-, -, rfl⟩ := Configuration.eq_put_of_save ht hsaved
  rw [entryAt?_put (by simp), if_neg (concat_ne_concat (by decide) _ _), hdrafts]

/-- The directories that are analysed are the root continued by names. -/
lemma exists_directories_eq_map : ∃ below : List Location, directories = below.map root.follow ∧
    ∀ names ∈ below, ∀ n ∈ names, IsPlainName n := by
  obtain ⟨filter, -, -, -, rfl⟩ := setUp_eq_ok_iff.mp h
  refine Path.exists_map_follow fun d hd => ?_
  obtain ⟨names, rfl, hshown⟩ := mem_walk ((stores_of_setUp ht h).isProject ht)
    (PathSet.mem_of_mem_ofList hd)
  exact ⟨names, rfl, hshown.plain⟩

/-- Without an assistant documents make no difference to the analyses. -/
lemma steady_of_setUp (hoff : options.useAssistant = false)
    (hgit : options.useGit = true → KeepsRepositories s.tree) : a.Steady saved := by
  obtain ⟨filter, -, hsaved, rfl, -⟩ := setUp_eq_ok_iff.mp h
  obtain ⟨-, hvacant, rfl⟩ := Configuration.eq_put_of_save ht hsaved
  exact steady_analyzer hoff fun huse => (hgit huse).put hvacant (by simp) _ _

/-- The configuration is loaded as it was saved, as long as nobody writes over it. -/
lemma load_of_setUp (hproject : t.IsProject root l)
    (hfile : t.entryAt? (l ++ [Configuration.fileName]) =
      saved.entryAt? (l ++ [Configuration.fileName])) :
    Configuration.load t root = .ok options.configuration := by
  obtain ⟨filter, -, hsaved, -⟩ := setUp_eq_ok_iff.mp h
  obtain ⟨hadmitted, -, rfl⟩ := Configuration.eq_put_of_save ht hsaved
  rw [entryAt?_put (by simp), if_pos rfl] at hfile
  exact Configuration.load_of_file hproject.root hadmitted (Configuration.ofText?_text _) hfile

/-- A refresh of everything goes by what the first analysis went by, and covers what it covered, as
long as the configuration and the directories are as they were. -/
lemma plan_of_setUp (hoff : options.useAssistant = false)
    (hanswers : options.useGit = true → later.git = s.git) (hproject : later.tree.IsProject root l)
    (hfile : later.tree.entryAt? (l ++ [Configuration.fileName]) =
      saved.entryAt? (l ++ [Configuration.fileName]))
    (hdirectories : ∀ m, later.tree.entryAt? m = some .directory ↔
      saved.entryAt? m = some .directory) :
    later.plan root ⟨.all, false, false⟩ = .ok (a, directories) := by
  have hload := load_of_setUp ht h hproject hfile
  have hstored := (stores_of_setUp ht h).isProject ht
  obtain ⟨filter, hfilter, -, rfl, rfl⟩ := setUp_eq_ok_iff.mp h
  -- the environment and the transport belong to the assistant, and nobody asks it
  have hanalyzer : s.analyzer options.configuration filter =
      later.analyzer options.configuration filter := by
    unfold Session.analyzer InitOptions.configuration
    cases huse : options.useGit with
    | false => simp [hoff]
    | true => simp [hoff, hanswers huse]
  refine plan_eq_ok_iff.mpr ⟨_, filter, hload, hfilter, hanalyzer, ?_⟩
  rw [RefreshScope.directories, walk_eq_of_directories hstored hproject hdirectories]

end

/-! ## The refresh -/

/-- A refresh of everything finds a project as setting it up has left it. In a project without links
and without drafts, and without an assistant, setting up may go well. Then its configuration is
loaded with the mode and the integrations that were chosen, and with the default patterns and the new
ones, each once. A refresh at any later time, to which version control answers as before, goes by the
same configuration and covers the same directories, does not fail, and leaves every entry and the bytes
of every file as they are. Of repositories it is assumed that no path to one leads to a document. -/
theorem refresh_after_setUp {clock : Int64} (ht : s.tree.IsProject root l)
    (hdrafts : ∀ names, s.tree.entryAt? (l ++ names ++ [draftName]) = none)
    (hoff : options.useAssistant = false)
    (hgit : options.useGit = true → KeepsRepositories s.tree)
    (hanswers : options.useGit = true → later.git = s.git)
    (hlater : later.tree = (setUpProject s root options).tree.atTime clock)
    (h : (setUpProject s root options).failure? = none) :
    Configuration.load later.tree root = .ok {
        mode := options.mode
        ignorePatterns := defaultIgnorePatterns ++
          (options.ignorePatterns.filter fun p => !defaultIgnorePatterns.contains p).eraseDups
        integrations := ⟨options.useGit, false⟩ } ∧
      (∃ saved a directories, s.setUp root options = .ok (saved, a, directories) ∧
        (setUpProject s root options).tree = (a.analyzeEach saved directories).1 ∧
        later.plan root ⟨.all, false, false⟩ = .ok (a, directories)) ∧
      (refreshProject later root ⟨.all, false, false⟩).failure? = none ∧
      ∀ m, ((refreshProject later root ⟨.all, false, false⟩).tree.entryAt? m).map Entry.undated =
        (later.tree.entryAt? m).map Entry.undated := by
  obtain ⟨saved, a, directories, hsetUp, htree⟩ := exists_setUp h
  have hproject := (stores_of_setUp ht hsetUp).isProject ht
  have hsteady := steady_of_setUp ht hsetUp hoff hgit
  obtain ⟨below, rfl, hplain⟩ := exists_directories_eq_map ht hsetUp
  rw [htree] at hlater
  -- the documents are all that has come since the configuration was saved
  obtain ⟨-, hreached⟩ := hsteady.run hproject (.start hproject) hplain
  have hproject' : later.tree.IsProject root l := hlater ▸ isProject_atTime hreached.project clock
  have hfile : later.tree.entryAt? (l ++ [Configuration.fileName]) =
      saved.entryAt? (l ++ [Configuration.fileName]) := by
    rw [hlater]
    refine hreached.same.elsewhere _ ?_
    rw [IsPlace, List.getLast?_concat]
    decide
  have hdirectories : ∀ m, later.tree.entryAt? m = some .directory ↔
      saved.entryAt? m = some .directory := by
    intro m
    rw [hlater]
    exact ⟨hreached.same.symm.keepsWays.directory m, hreached.same.keepsWays.directory m⟩
  have hplan := plan_of_setUp ht hsetUp hoff hanswers hproject' hfile hdirectories
  refine ⟨?_, ⟨saved, a, _, hsetUp, htree, hplan⟩, ?_, ?_⟩
  · rw [load_of_setUp ht hsetUp hproject' hfile, ← ignorePatterns_configuration, ← hoff]
    rfl
  · rw [refreshProject_eq, hplan]
    exact failure?_refreshDirectories (by simp) ..
  · intro m
    have htree' : (refreshProject later root ⟨.all, false, false⟩).tree =
        (a.analyzeEach later.tree (below.map root.follow)).1 := by
      rw [refreshProject_eq, hplan]
      exact tree_refreshDirectories a later.tree .all _
    rw [htree', hlater]
    exact hsteady.again hproject (drafts_of_setUp ht hsetUp hdrafts) hplain clock m

/-- A project with one file is set up with a pattern that is given twice. -/
def repeatedOptions : InitOptions := ⟨.smart, true, false, ["*.tmp", "*.tmp"]⟩

/-- The session after that. -/
def lateSession : Session :=
  { loneSession with tree := (setUpProject loneSession ⟨"/"⟩ repeatedOptions).tree.atTime 7 }

lemma isProject_loneSession : loneSession.tree.IsProject ⟨"/"⟩ [] :=
  ⟨by decide, find_slash _, linkFreeBelow_of_entries (by decide) _⟩

lemma setUpProject_loneSession :
    (setUpProject loneSession ⟨"/"⟩ repeatedOptions).failure? = none := by
  refine (setUpProject_cases loneSession ⟨"/"⟩ repeatedOptions).resolve_right ?_
  rintro ⟨f, -, hobstructs⟩
  cases hobstructs with
  | patternGiven _ _ h =>
    have hpatterns : (IgnoreFilter.ofPatterns ⟨"/"⟩
        repeatedOptions.configuration.ignorePatterns).toBool = true := by decide
    simp [h, Except.toBool] at hpatterns
  | unwritable _ filter e _ h =>
    have hnone : loneSession.tree.entryAt? ([] ++ [Configuration.fileName]) = none :=
      entryAt?_concat_eq_none (by decide) []
    have hwrite := write_join (leadsInto_of_find (find_slash loneSession.tree)) Configuration.isEntryName_fileName
      (isProject_loneSession.linkFree [Configuration.fileName]) (by decide)
      repeatedOptions.configuration.text.toUTF8
    rw [hnone] at hwrite
    cases h.symm.trans hwrite

/-- The pattern is kept once, and a refresh leaves every file as it is. -/
theorem refresh_lateSession :
    loneSession.tree.IsProject ⟨"/"⟩ [] ∧
      Configuration.load lateSession.tree ⟨"/"⟩ = .ok {
        mode := .smart
        ignorePatterns := defaultIgnorePatterns ++ ["*.tmp"]
        integrations := ⟨true, false⟩ } ∧
      ∀ m, ((refreshProject lateSession ⟨"/"⟩ ⟨.all, false, false⟩).tree.entryAt? m).map
          Entry.undated =
        (lateSession.tree.entryAt? m).map Entry.undated := by
  have hgit : ∀ m target, loneSession.tree.entryAt? (m ++ [repositoryName]) ≠
      some (.link target) := by
    intro m target
    rw [entryAt?_concat_eq_none (by decide)]
    nofun
  have hlater : lateSession.tree =
      (setUpProject loneSession ⟨"/"⟩ repeatedOptions).tree.atTime 7 := rfl
  have hanswers : repeatedOptions.useGit = true → lateSession.git = loneSession.git := fun _ => rfl
  obtain ⟨hload, -, -, hkept⟩ := refresh_after_setUp isProject_loneSession
    (fun names => entryAt?_concat_eq_none (by decide) ([] ++ names)) rfl
    (fun _ => keepsRepositories_of_noLink hgit) hanswers hlater setUpProject_loneSession
  refine ⟨isProject_loneSession, hload.trans ?_, hkept⟩
  have hnew : (repeatedOptions.ignorePatterns.filter
      fun p => !defaultIgnorePatterns.contains p).eraseDups = ["*.tmp"] := by decide
  rw [hnew]
  rfl

end DirectoryNotes
