import DirectoryNotes.Proofs.Command.Failure
import DirectoryNotes.Proofs.Configuration
import DirectoryNotes.Proofs.Directory.Documenting
import DirectoryNotes.Proofs.Plan.Target
import DirectoryNotes.Proofs.Plan.Walked

/-!
# What commands write

A refresh writes documents into the directories that it plans to analyse and nothing else. A dry run
only names these directories, and a view that is printed only reads.

* `liesAt_of_directories`: the directories that a scope plans, each a directory of the project and no
  two of them the same;
* `commands_write_announced`: what the commands leave.
-/

namespace DirectoryNotes

open FileTree FileError Document Analyzer

variable {s : Session} {t : FileTree} {root path d : Path} {l : Location} {filter : IgnoreFilter}

/-! ## Planned directories -/

/-- What a scope plans are directories of the project, no two of them the same. -/
theorem liesAt_of_directories {scope : RefreshScope} {versionControl : VersionControl}
    {directories : PathSet} (ht : t.IsProject root l)
    (h : scope.directories t root filter versionControl = .ok directories) :
    (∀ d ∈ directories, ∃ names, t.LiesAt root l d names) ∧
      directories.Pairwise fun d d' => d.parts ≠ d'.parts := by
  cases scope with
  | changed =>
    obtain ⟨reply, -, heq⟩ := bind_eq_ok_iff.mp h
    obtain rfl := Except.ok.inj heq
    refine ⟨fun d hd => ?_, PathSet.pairwise_ofList _⟩
    obtain ⟨change, -, hchange⟩ := List.mem_filterMap.mp (PathSet.mem_of_mem_ofList hd)
    obtain ⟨names, hn, hparts, hfind, -⟩ := exists_names_of_affectedDirectory? ht hchange
    refine ⟨names, fun n hmem => (hn n hmem).1, hparts, fun k hk => ?_⟩
    have heq := Except.ok.inj (hk.symm.trans hfind)
    exact (Prod.mk.inj heq).1
  | all =>
    obtain rfl := Except.ok.inj h
    refine ⟨fun d hd => ?_, PathSet.pairwise_ofList _⟩
    obtain ⟨names, rfl, hshown⟩ := mem_walk ht (PathSet.mem_of_mem_ofList hd)
    exact ⟨names, ht.liesAt_follow hshown.plain⟩
  | path p =>
    obtain ⟨target, htarget, heq⟩ := bind_eq_ok_iff.mp h
    obtain rfl := Except.ok.inj heq
    obtain ⟨names, hn, rfl⟩ := resolveTarget_eq_follow ht.wellFormed htarget
    refine ⟨fun d hd => ?_, List.pairwise_singleton _ _⟩
    obtain rfl := List.mem_singleton.mp hd
    exact ⟨names, ht.liesAt_follow hn⟩

/-! ## What is left -/

/-- Commands write what they announce. In a project without drafts a refresh fails and changes
nothing, or there are directories that it plans: a dry run prints them and changes nothing, and without
it only documents in these directories differ afterwards. Each of them has the document of the record
that was made for it, or every file that it had if its analysis failed, and no draft is left. A view
that is printed changes nothing. -/
theorem commands_write_announced (ht : s.tree.IsProject root l)
    (hdrafts : ∀ names, s.tree.entryAt? (l ++ names ++ [draftName]) = none) (scope : RefreshScope) :
    ((∃ f, ∀ dryRun, refreshProject s root ⟨scope, dryRun, false⟩ = .failed s.tree f) ∨
      ∃ a directories, (∀ dryRun, s.plan root ⟨scope, dryRun, false⟩ = .ok (a, directories)) ∧
        refreshProject s root ⟨scope, true, false⟩ = .done s.tree
          (String.join (directories.map fun d => relativeText root d ++ "\n")) ∧
        Leaves s.tree root l directories (refreshProject s root ⟨scope, false, false⟩).tree
          (a.analyzeEach s.tree directories).2) ∧
    ∀ options : ContextOptions, options.output? = none →
      (showContext s root options).tree = s.tree := by
  constructor
  · have hsame : ∀ dryRun, s.plan root ⟨scope, dryRun, false⟩ = s.plan root ⟨scope, false, false⟩ :=
      fun _ => rfl
    cases hplan : s.plan root ⟨scope, false, false⟩ with
    | error f =>
      left
      refine ⟨f, fun dryRun => ?_⟩
      rw [refreshProject_eq, hsame, hplan]
    | ok planned =>
      obtain ⟨a, directories⟩ := planned
      obtain ⟨c, filter, -, -, -, hdirectories⟩ := plan_eq_ok_iff.mp hplan
      obtain ⟨hlies, hdistinct⟩ := liesAt_of_directories ht hdirectories
      refine .inr ⟨a, directories, fun dryRun => (hsame dryRun).trans hplan, ?_, ?_⟩
      · rw [refreshProject_eq, hsame, hplan]
        rfl
      · have htree : (refreshProject s root ⟨scope, false, false⟩).tree =
            (a.analyzeEach s.tree directories).1 := by
          rw [refreshProject_eq, hplan]
          exact tree_refreshDirectories a s.tree scope directories
        rw [htree]
        exact leaves_analyzeEach ht hdrafts hlies hdistinct
  · intro options houtput
    unfold showContext
    cases contextText s.tree root options with
    | error f => rfl
    | ok text => simp only [houtput, CommandResult.done]

/-- A project with a configuration in which nothing is said, and one note. -/
def configuredSession : Session where
  tree := {
    entries := [([".dircontext.json"], .file "\x7b\x7d".toUTF8 1),
      (["notes.md"], .file "One".toUTF8 1)] }
  environment _ := none
  git _ _ := .ok none
  send _ := .unreachable "not connected"

lemma isProject_configuredSession : configuredSession.tree.IsProject ⟨"/"⟩ [] :=
  ⟨by decide, find_slash _, linkFreeBelow_of_entries (by decide) _⟩

lemma load_configuredSession : Configuration.load configuredSession.tree ⟨"/"⟩ = .ok {} :=
  Configuration.load_of_file isProject_configuredSession.root (by decide)
    (by decide : Configuration.ofText? "\x7b\x7d" = some {}) rfl

/-- The root is the only directory in it. -/
lemma walk_configuredSession (filter : IgnoreFilter) :
    walk configuredSession.tree filter ⟨"/"⟩ = [⟨"/"⟩] := by
  have hnone : configuredSession.tree.visitBelow true (listedBy filter ⟨"/"⟩) [[]] 1 ⟨"/"⟩ [] = [] := by
    refine List.eq_nil_iff_forall_not_mem.mpr fun v hv => ?_
    obtain ⟨hne, -, -, hentry, -⟩ := namesBelow_of_mem_visits isProject_configuredSession hv
    simpa [configuredSession] using mem_of_entryAt? hne hentry
  rw [walk_eq_visits isProject_configuredSession, hnone, List.map_nil]

lemma exists_plan_configuredSession : ∃ a,
    configuredSession.plan ⟨"/"⟩ ⟨.all, false, false⟩ = .ok (a, [⟨"/"⟩]) := by
  have hpatterns : (IgnoreFilter.ofPatterns ⟨"/"⟩ defaultIgnorePatterns).toBool = true := by decide
  cases hfilter : IgnoreFilter.ofPatterns ⟨"/"⟩ defaultIgnorePatterns with
  | error e => simp [hfilter, Except.toBool] at hpatterns
  | ok filter =>
    refine ⟨_, plan_eq_ok_iff.mpr ⟨{}, filter, load_configuredSession, hfilter, rfl, ?_⟩⟩
    rw [RefreshScope.directories, walk_configuredSession]
    rfl

/-- A refresh of everything in it is planned, and leaves the document of the root and nothing else. -/
theorem configuredSession_writes :
    configuredSession.tree.IsProject ⟨"/"⟩ [] ∧
      (∀ names, configuredSession.tree.entryAt? ([] ++ names ++ [draftName]) = none) ∧
      ∃ a r, configuredSession.plan ⟨"/"⟩ ⟨.all, false, false⟩ = .ok (a, [⟨"/"⟩]) ∧
        Leaves configuredSession.tree ⟨"/"⟩ [] [⟨"/"⟩]
          (refreshProject configuredSession ⟨"/"⟩ ⟨.all, false, false⟩).tree
          (a.analyzeEach configuredSession.tree [⟨"/"⟩]).2 ∧
        r.path = ⟨"/"⟩ ∧
        Document.read (refreshProject configuredSession ⟨"/"⟩ ⟨.all, false, false⟩).tree ⟨"/"⟩ =
          .ok (some (render r)) := by
  have hdrafts : ∀ names, configuredSession.tree.entryAt? ([] ++ names ++ [draftName]) = none :=
    fun names => entryAt?_concat_eq_none (by decide) ([] ++ names)
  obtain ⟨a, hplan⟩ := exists_plan_configuredSession
  rcases (commands_write_announced isProject_configuredSession hdrafts .all).1 with
    ⟨f, hfailed⟩ | ⟨a', directories, hplan', -, hleaves⟩
  · -- it is planned, so it does not fail
    have hfailure := congrArg CommandResult.failure? (hfailed false)
    rw [refreshProject_eq, hplan] at hfailure
    dsimp only at hfailure
    rw [if_neg (by simp), failure?_refreshDirectories (by simp)] at hfailure
    cases hfailure
  · obtain ⟨rfl, rfl⟩ := Prod.mk.inj (Except.ok.inj ((hplan' false).symm.trans hplan))
    have hanalyzed := exists_result_of_free (a := a') isProject_configuredSession.root (by decide)
      (hdrafts []) (by rw [entryAt?_concat_eq_none (by decide)]; simp)
    obtain ⟨r, hr⟩ := hanalyzed
    have hsettled := hleaves.settled ⟨"/"⟩ (a'.analyze configuredSession.tree ⟨"/"⟩)
      List.mem_cons_self
    cases hsettled with
    | documented r hresult hpath hread =>
      exact ⟨isProject_configuredSession, hdrafts, a', r, hplan, hleaves, hpath, hread⟩
    | failed f hresult _ => cases hr.symm.trans hresult

end DirectoryNotes
