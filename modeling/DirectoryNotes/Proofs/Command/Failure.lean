import DirectoryNotes.Command.Run
import DirectoryNotes.Proofs.Directory.VisibleFiles
import DirectoryNotes.Proofs.FileTree.RealPath

/-!
# Commands that fail

A command looks at everything that may be wrong before it writes anything, and whatever goes wrong
with single directories later costs their documents only. So a command either fails and has changed
nothing, or it does its work. After the work one thing may fail, to print a record that has no JSON,
and only where a name is no text:

* `Unconfigured`, `Misleads`, `Unreported`: what may be wrong with a configuration, with a path that
  was given and with the report of changes;
* `Obstructs`: what keeps a command from its work. `Obstructs.failure?_run` says that it then fails;
* `Unprinted`: the record of a refreshed directory cannot be printed. `Unprinted.run` says what is left;
* `Command.run_cases`: there is no other way to fail;
* `runArguments_failed`: the same for the whole program and its exit code.
-/

namespace DirectoryNotes

open FileTree FileError Analyzer

/-! ## What may be wrong -/

/-- A chain of two steps fails where one of them does. -/
lemma bind_eq_error_iff {ε α β : Type} {x : Except ε α} {g : α → Except ε β} {e : ε} :
    (x >>= g) = .error e ↔ x = .error e ∨ ∃ a, x = .ok a ∧ g a = .error e := by
  cases x with
  | error e' => simp [bind, Except.bind]
  | ok a => simp [bind, Except.bind]

lemma bind_eq_ok_iff {ε α β : Type} {x : Except ε α} {g : α → Except ε β} {b : β} :
    (x >>= g) = .ok b ↔ ∃ a, x = .ok a ∧ g a = .ok b := by
  cases x with
  | error e => simp [bind, Except.bind]
  | ok a => simp [bind, Except.bind]

lemma FileError.lift_eq_error_iff {α : Type} {x : Except FileError α} {f : Failure} :
    FileError.lift x = .error f ↔ ∃ e, x = .error e ∧ f = .file e := by
  cases x with
  | error e => simp [FileError.lift, eq_comm]
  | ok a => simp [FileError.lift]

lemma FileError.lift_eq_ok_iff {α : Type} {x : Except FileError α} {a : α} :
    FileError.lift x = .ok a ↔ x = .ok a := by
  cases x with
  | error e => simp [FileError.lift]
  | ok b => simp [FileError.lift]

variable {s : Session} {t : FileTree} {root path : Path} {filter : IgnoreFilter} {f : Failure}

/-- What is wrong where a project has no configuration to work with. -/
inductive Unconfigured (t : FileTree) (root : Path) : Failure → Prop
  /-- There is no file. -/
  | missing : t.isFile (Configuration.pathIn root) = false →
      Unconfigured t root (.notInitialized root)
  /-- The file cannot be read. -/
  | unreadable (e : FileError) : t.isFile (Configuration.pathIn root) = true →
      t.readText (Configuration.pathIn root) = .error e → Unconfigured t root (.file e)
  /-- The text of the file is no configuration. -/
  | meaningless (text : String) : t.isFile (Configuration.pathIn root) = true →
      t.readText (Configuration.pathIn root) = .ok text → Configuration.ofText? text = none →
      Unconfigured t root
        (.config ((Configuration.pathIn root).text ++ ": the text is not a configuration"))

lemma load_eq_error_iff : Configuration.load t root = .error f ↔ Unconfigured t root f := by
  unfold Configuration.load Configuration.existsIn
  by_cases hfile : t.isFile (Configuration.pathIn root)
  · rw [if_pos hfile, bind_eq_error_iff]
    constructor
    · rintro (h | ⟨text, htext, h⟩)
      · obtain ⟨e, he, rfl⟩ := lift_eq_error_iff.mp h
        exact .unreadable e hfile he
      · cases hparsed : Configuration.ofText? text with
        | some c => simp [hparsed] at h
        | none =>
          rw [hparsed] at h
          obtain rfl := Except.error.inj h
          exact .meaningless text hfile (lift_eq_ok_iff.mp htext) hparsed
    · intro h
      cases h with
      | missing hmissing => simp [hfile] at hmissing
      | unreadable e _ he => exact .inl (lift_eq_error_iff.mpr ⟨e, he, rfl⟩)
      | meaningless text _ htext hparsed =>
        exact .inr ⟨text, lift_eq_ok_iff.mpr htext, by rw [hparsed]⟩
  · rw [if_neg hfile]
    constructor
    · intro h
      obtain rfl := Except.error.inj h
      exact .missing (by simpa using hfile)
    · intro h
      cases h with
      | missing _ => rfl
      | unreadable e htrue _ => exact absurd htrue hfile
      | meaningless text htrue _ _ => exact absurd htrue hfile

/-- What is wrong with a path that should lead to a directory inside the project. -/
inductive Misleads (t : FileTree) (root path : Path) : Failure → Prop
  /-- The root leads nowhere. -/
  | rootless (e : FileError) : t.realPath root = .error e → Misleads t root path (.file e)
  /-- The path leads nowhere. -/
  | lost (e : FileError) (top : Path) : t.realPath root = .ok top →
      t.realPath (root.join path) = .error e → Misleads t root path (.file e)
  /-- The path leads out of the project. -/
  | outside (top place : Path) : t.realPath root = .ok top →
      t.realPath (root.join path) = .ok place → place.relativeTo? top = none →
      Misleads t root path (.outsideRoot (root.join path))
  /-- The path leads to something that is not a directory. -/
  | noDirectory (top place rest : Path) : t.realPath root = .ok top →
      t.realPath (root.join path) = .ok place → place.relativeTo? top = some rest →
      t.isDirectory place = false →
      Misleads t root path (.config ((root.join path).text ++ " is not a directory"))

lemma resolveTarget_eq_error_iff :
    resolveTarget t root path = .error f ↔ Misleads t root path f := by
  unfold resolveTarget
  simp only [bind_eq_error_iff, lift_eq_error_iff, lift_eq_ok_iff]
  constructor
  · rintro (⟨e, he, rfl⟩ | ⟨top, htop, ⟨e, he, rfl⟩ | ⟨place, hplace, h⟩⟩)
    · exact .rootless e he
    · exact .lost e top htop he
    · cases hrest : place.relativeTo? top with
      | none =>
        rw [hrest] at h
        obtain rfl := Except.error.inj h
        exact .outside top place htop hplace hrest
      | some rest =>
        rw [hrest] at h
        dsimp only at h
        split at h
        · next hdirectory =>
          obtain rfl := Except.error.inj h
          exact .noDirectory top place rest htop hplace hrest (by simpa using hdirectory)
        · cases h
  · intro h
    cases h with
    | rootless e he => exact .inl ⟨e, he, rfl⟩
    | lost e top htop he => exact .inr ⟨top, htop, .inl ⟨e, he, rfl⟩⟩
    | outside top place htop hplace hrest =>
      exact .inr ⟨top, htop, .inr ⟨place, hplace, by rw [hrest]⟩⟩
    | noDirectory top place rest htop hplace hrest hdirectory =>
      exact .inr ⟨top, htop, .inr ⟨place, hplace, by simp [hrest, hdirectory]⟩⟩

/-- Version control is asked for changes, and its report cannot be read. -/
def Unreported (s : Session) (root : Path) (c : Configuration) (f : Failure) : Prop :=
  c.integrations.git = true ∧ s.git.changedFiles root = .error f ∧ ∃ line, f = .brokenLine line

lemma changedFiles_analyzer_eq_error_iff {c : Configuration} :
    (s.analyzer c filter).versionControl.changedFiles root = .error f ↔ Unreported s root c f := by
  unfold Session.analyzer Unreported
  cases c.integrations.git with
  | false => simp [VersionControl.absent]
  | true =>
    simp only [if_true, true_and, Git.toVersionControl]
    cases hchanged : s.git.changedFiles root with
    | ok paths => simp
    | error e => cases e <;> simp +contextual [eq_comm]

lemma directories_eq_error_iff {c : Configuration} {scope : RefreshScope} :
    scope.directories t root filter (s.analyzer c filter).versionControl = .error f ↔
      scope = .changed ∧ Unreported s root c f ∨ ∃ p, scope = .path p ∧ Misleads t root p f := by
  cases scope with
  | changed =>
    simp [RefreshScope.directories, changedDirectories, bind_eq_error_iff, pure, Except.pure,
      changedFiles_analyzer_eq_error_iff]
  | all => simp [RefreshScope.directories]
  | path p =>
    simp [RefreshScope.directories, bind_eq_error_iff, pure, Except.pure,
      resolveTarget_eq_error_iff]

/-! ### Views -/

/-- A document is there and cannot be read. -/
def Unread (t : FileTree) (f : Failure) : Prop := ∃ directory, Document.read t directory = .error f

lemma exists_of_mapM_eq_error {ε α β : Type} {g : α → Except ε β} {xs : List α} {e : ε}
    (h : xs.mapM g = .error e) : ∃ x ∈ xs, g x = .error e := by
  induction xs with
  | nil => cases h
  | cons x rest ih =>
    rw [List.mapM_cons, bind_eq_error_iff] at h
    rcases h with h | ⟨y, -, h⟩
    · exact ⟨x, List.mem_cons_self, h⟩
    · rcases bind_eq_error_iff.mp h with h | ⟨ys, -, h⟩
      · obtain ⟨z, hz, he⟩ := ih h
        exact ⟨z, List.mem_cons_of_mem _ hz, he⟩
      · cases h

lemma unread_of_documentOrNotice {target : Path} (h : View.documentOrNotice t target = .error f) :
    Unread t f := by
  unfold View.documentOrNotice at h
  rcases bind_eq_error_iff.mp h with h | ⟨text, -, h⟩
  · exact ⟨target, h⟩
  · cases h

/-- A view fails only on a document that cannot be read. -/
lemma unread_of_text {view : View} {target : Path} (h : view.text t root target = .error f) :
    Unread t f := by
  cases view with
  | directory =>
    rcases bind_eq_error_iff.mp h with h | ⟨document, -, h⟩
    · exact unread_of_documentOrNotice h
    · cases h
  | project =>
    rcases bind_eq_error_iff.mp h with h | ⟨sections, -, h⟩
    · obtain ⟨directory, -, h⟩ := exists_of_mapM_eq_error h
      rcases bind_eq_error_iff.mp h with h | ⟨text, -, h⟩
      · exact ⟨directory, h⟩
      · cases text <;> cases h
    · cases h
  | standard =>
    rcases bind_eq_error_iff.mp h with h | ⟨document, -, h⟩
    · exact unread_of_documentOrNotice h
    · cases habove : View.parentWithinRoot? t root target with
      | none =>
        rw [habove] at h
        cases h
      | some above =>
        rw [habove] at h
        rcases bind_eq_error_iff.mp h with h | ⟨text, -, h⟩
        · exact ⟨above, h⟩
        · cases text <;> cases h

/-! ## Commands -/

/-- The directory that a view is about. -/
def ContextOptions.target (options : ContextOptions) (t : FileTree) (root : Path) :
    Except Failure Path :=
  match options.path? with
  | some p => resolveTarget t root p
  | none => .ok root

/-- What keeps a command from its work on a project, and the failure that it ends with. -/
inductive Obstructs (s : Session) (root : Path) : Command → Failure → Prop
  /-- A pattern that was given, or one of the defaults with it, is no pattern. -/
  | patternGiven (options : InitOptions) (f : Failure) :
      IgnoreFilter.ofPatterns root options.configuration.ignorePatterns = .error f →
      Obstructs s root (.init options) f
  /-- The configuration cannot be written. -/
  | unwritable (options : InitOptions) (filter : IgnoreFilter) (e : FileError) :
      IgnoreFilter.ofPatterns root options.configuration.ignorePatterns = .ok filter →
      s.tree.writeText (Configuration.pathIn root) options.configuration.text = .error e →
      Obstructs s root (.init options) (.file e)
  /-- There is no configuration to refresh by. -/
  | unconfigured (options : RefreshOptions) (f : Failure) : Unconfigured s.tree root f →
      Obstructs s root (.refresh options) f
  /-- A pattern of the configuration is no pattern. -/
  | patternRead (options : RefreshOptions) (c : Configuration) (f : Failure) :
      Configuration.load s.tree root = .ok c →
      IgnoreFilter.ofPatterns root c.ignorePatterns = .error f →
      Obstructs s root (.refresh options) f
  /-- The report of changes cannot be read. -/
  | unreported (options : RefreshOptions) (c : Configuration) (filter : IgnoreFilter) (f : Failure) :
      Configuration.load s.tree root = .ok c →
      IgnoreFilter.ofPatterns root c.ignorePatterns = .ok filter →
      options.scope = .changed → Unreported s root c f → Obstructs s root (.refresh options) f
  /-- The path to refresh is no directory of the project. -/
  | misledRefresh (options : RefreshOptions) (c : Configuration) (filter : IgnoreFilter) (p : Path)
      (f : Failure) :
      Configuration.load s.tree root = .ok c →
      IgnoreFilter.ofPatterns root c.ignorePatterns = .ok filter →
      options.scope = .path p → Misleads s.tree root p f → Obstructs s root (.refresh options) f
  /-- There is no configuration to show anything by. -/
  | unconfiguredView (options : ContextOptions) (f : Failure) : Unconfigured s.tree root f →
      Obstructs s root (.context options) f
  /-- The path to show is no directory of the project. -/
  | misledView (options : ContextOptions) (c : Configuration) (p : Path) (f : Failure) :
      Configuration.load s.tree root = .ok c → options.path? = some p →
      Misleads s.tree root p f → Obstructs s root (.context options) f
  /-- A document to show cannot be read. -/
  | unread (options : ContextOptions) (c : Configuration) (target : Path) (f : Failure) :
      Configuration.load s.tree root = .ok c → options.target s.tree root = .ok target →
      options.view.text s.tree root target = .error f → Unread s.tree f →
      Obstructs s root (.context options) f
  /-- The view cannot be written where it should go. -/
  | unwritableView (options : ContextOptions) (text : String) (path : Path) (e : FileError) :
      contextText s.tree root options = .ok text → options.output? = some path →
      s.tree.writeText path text = .error e → Obstructs s root (.context options) (.file e)

lemma setUpProject_cases (s : Session) (root : Path) (options : InitOptions) :
    (setUpProject s root options).failure? = none ∨
      ∃ f, setUpProject s root options = .failed s.tree f ∧ Obstructs s root (.init options) f := by
  unfold setUpProject Configuration.save
  cases hfilter : IgnoreFilter.ofPatterns root options.configuration.ignorePatterns with
  | error f => exact .inr ⟨f, by simp only [hfilter], .patternGiven options f hfilter⟩
  | ok filter =>
    cases hsaved : s.tree.writeText (Configuration.pathIn root) options.configuration.text with
    | error e =>
      exact .inr ⟨.file e, by simp only [hfilter, hsaved, FileError.lift],
        .unwritable options filter e hfilter hsaved⟩
    | ok saved =>
      -- whatever comes of the analyses now, the command goes well
      left
      simp only [hfilter, hsaved, FileError.lift, CommandResult.done]

/-- What a refresh goes by, and the directories that it covers. -/
def Session.plan (s : Session) (root : Path) (options : RefreshOptions) :
    Except Failure (Analyzer × PathSet) := do
  let c ← Configuration.load s.tree root
  let filter ← IgnoreFilter.ofPatterns root c.ignorePatterns
  let a := s.analyzer c filter
  return (a, ← options.scope.directories s.tree root filter a.versionControl)

lemma refreshProject_eq (s : Session) (root : Path) (options : RefreshOptions) :
    refreshProject s root options =
      match s.plan root options with
      | .error f => .failed s.tree f
      | .ok (a, directories) =>
        if options.dryRun then
          .done s.tree (String.join (directories.map fun d => relativeText root d ++ "\n"))
        else refreshDirectories a s.tree options.scope directories := by
  unfold refreshProject Session.plan
  rfl

lemma plan_eq_error_iff {options : RefreshOptions} :
    s.plan root options = .error f ↔ Obstructs s root (.refresh options) f := by
  unfold Session.plan
  simp only [bind_eq_error_iff, load_eq_error_iff, directories_eq_error_iff, pure, Except.pure,
    reduceCtorEq, and_false, exists_false, or_false]
  constructor
  · rintro (h | ⟨c, hload, h | ⟨filter, hfilter, ⟨hscope, h⟩ | ⟨p, hscope, h⟩⟩⟩)
    · exact .unconfigured options f h
    · exact .patternRead options c f hload h
    · exact .unreported options c filter f hload hfilter hscope h
    · exact .misledRefresh options c filter p f hload hfilter hscope h
  · intro h
    cases h with
    | unconfigured _ _ h => exact .inl h
    | patternRead _ c _ hload h => exact .inr ⟨c, hload, .inl h⟩
    | unreported _ c filter _ hload hfilter hscope h =>
      exact .inr ⟨c, hload, .inr ⟨filter, hfilter, .inl ⟨hscope, h⟩⟩⟩
    | misledRefresh _ c filter p _ hload hfilter hscope h =>
      exact .inr ⟨c, hload, .inr ⟨filter, hfilter, .inr ⟨p, hscope, h⟩⟩⟩

lemma plan_eq_ok_iff {options : RefreshOptions} {a : Analyzer} {directories : PathSet} :
    s.plan root options = .ok (a, directories) ↔ ∃ c filter,
      Configuration.load s.tree root = .ok c ∧
        IgnoreFilter.ofPatterns root c.ignorePatterns = .ok filter ∧ a = s.analyzer c filter ∧
          options.scope.directories s.tree root filter a.versionControl = .ok directories := by
  unfold Session.plan
  simp only [bind_eq_ok_iff, pure, Except.pure, Except.ok.injEq, Prod.mk.injEq]
  constructor
  · rintro ⟨c, hload, filter, hfilter, _, hdirectories, rfl, rfl⟩
    exact ⟨c, filter, hload, hfilter, rfl, hdirectories⟩
  · rintro ⟨c, filter, hload, hfilter, rfl, hdirectories⟩
    exact ⟨c, hload, filter, hfilter, directories, hdirectories, rfl, rfl⟩

/-- The record of the directory that a refresh is about is made and its document is written, but a name
in its path is no text, so there is no JSON of the record to print. -/
inductive Unprinted (s : Session) (root : Path) : Command → FileTree → Prop
  | intro (options : RefreshOptions) (a : Analyzer) (p d : Path) (r : DirectoryRecord)
      (written : FileTree) :
      options.scope = .path p → options.dryRun = false →
      s.plan root options = .ok (a, [d]) → a.configuration.outputFormat = .json →
      (a.analyze s.tree d).result = .ok r → Document.write s.tree r = (written, .ok ()) →
      s.tree.decodes d = false → Unprinted s root (.refresh options) written

/-- Where every name is a text, every record can be printed. -/
lemma not_unprinted {command : Command} {written : FileTree} (h : s.tree.undecodable = []) :
    ¬Unprinted s root command written := by
  intro hunprinted
  cases hunprinted with
  | intro options a p d r written hscope hdryRun hplan hformat hanalyzed hwrite hdecodes =>
    have hall : s.tree.decodes d = true := by
      refine List.all_eq_true.mpr fun part _ => ?_
      cases part <;> simp [h]
    rw [hall] at hdecodes
    cases hdecodes

section
variable {a : Analyzer} {p d : Path} {r : DirectoryRecord}

lemma tree_refreshDirectories (a : Analyzer) (t : FileTree) (scope : RefreshScope)
    (directories : PathSet) :
    (refreshDirectories a t scope directories).tree = (a.analyzeEach t directories).1 := by
  unfold refreshDirectories
  cases directories with
  | nil => rfl
  | cons d rest => rfl

/-- A refresh of more than one directory prints no records. -/
lemma failure?_refreshDirectories {scope : RefreshScope} (h : ∀ p, scope ≠ .path p) (a : Analyzer)
    (t : FileTree) (directories : PathSet) :
    (refreshDirectories a t scope directories).failure? = none := by
  have houtput : ∀ records, recordOutput a.configuration scope t records = ("", none) := by
    intro records
    unfold recordOutput
    split
    · next p _ => exact absurd rfl (h p)
    · rfl
  unfold refreshDirectories
  simp only [houtput]
  split <;> rfl

/-- What a refresh of one directory prints after its count, and how it ends, is up to its record. -/
lemma refreshDirectories_path (a : Analyzer) (t : FileTree) (p d : Path) :
    refreshDirectories a t (.path p) [d] =
      ⟨(a.analyze t d).tree,
        "Refreshed " ++ toString (recordsOf [a.analyze t d]).length ++ " of 1 directories\n" ++
          (recordOutput a.configuration (.path p) t (recordsOf [a.analyze t d])).1,
        (recordOutput a.configuration (.path p) t (recordsOf [a.analyze t d])).2⟩ := by
  have hcount : ∀ text : String,
      text ++ " of " ++ toString [d].length ++ " directories\n" = text ++ " of 1 directories\n" := by
    intro text
    rw [List.length_singleton, String.append_assoc, String.append_assoc]
    rfl
  unfold refreshDirectories
  simp only [List.isEmpty_cons, Bool.false_eq_true, if_false, analyzeEach, hcount]

lemma recordsOf_analyze (h : (a.analyze t d).result = .ok r) : recordsOf [a.analyze t d] = [r] := by
  simp [recordsOf, h, Except.toOption]

/-- A record is not printed only if a name in the path of its directory is no text. -/
lemma recordOutput_path (hformat : a.configuration.outputFormat = .json)
    (h : (a.analyze t d).result = .ok r) :
    recordOutput a.configuration (.path p) t (recordsOf [a.analyze t d]) =
      if t.decodes d then (r.toJson.pretty ++ "\n", none) else ("", some .unprintable) := by
  obtain ⟨-, -, hpath, -⟩ := exists_write_of_analyze h
  rw [recordsOf_analyze h]
  simp only [recordOutput, hformat, printRecords, hpath, String.append_empty]

/-- All that is printed of a record that has no JSON is the count. -/
lemma Unprinted.run {command : Command} {written : FileTree} (h : Unprinted s root command written) :
    command.run s root = ⟨written, "Refreshed 1 of 1 directories\n", some .unprintable⟩ := by
  cases h with
  | intro options a p d r written hscope hdryRun hplan hformat hanalyzed hwrite hdecodes =>
    obtain ⟨-, -, -, hwritten⟩ := exists_write_of_analyze hanalyzed
    obtain rfl := (Prod.mk.inj (hwritten.symm.trans hwrite)).1
    have hcount : "Refreshed " ++ toString [r].length ++ " of 1 directories\n" ++ "" =
        "Refreshed 1 of 1 directories\n" := by
      rw [List.length_singleton]
      decide
    rw [Command.run, refreshProject_eq, hplan]
    dsimp only
    rw [if_neg (by simp [hdryRun]), hscope, refreshDirectories_path,
      recordOutput_path hformat hanalyzed, if_neg (by simp [hdecodes]), recordsOf_analyze hanalyzed,
      hcount]

/-- A refresh of one directory ends well, unless its record is made and not printed. -/
lemma refreshDirectories_path_cases (a : Analyzer) (t : FileTree) (p d : Path) :
    (refreshDirectories a t (.path p) [d]).failure? = none ∨
      a.configuration.outputFormat = .json ∧ t.decodes d = false ∧
        ∃ r, (a.analyze t d).result = .ok r := by
  rw [refreshDirectories_path]
  cases hformat : a.configuration.outputFormat with
  | markdown =>
    left
    simp only [recordOutput, hformat]
  | json =>
    cases hresult : (a.analyze t d).result with
    | error f =>
      left
      have hnone : recordsOf [a.analyze t d] = [] := by simp [recordsOf, hresult, Except.toOption]
      simp only [recordOutput, hformat, hnone, printRecords]
    | ok r =>
      dsimp only
      rw [recordOutput_path hformat hresult]
      cases hdecodes : t.decodes d with
      | false => exact .inr ⟨rfl, rfl, r, rfl⟩
      | true => exact .inl rfl

end

lemma refreshProject_cases (s : Session) (root : Path) (options : RefreshOptions) :
    (refreshProject s root options).failure? = none ∨
      (∃ f, refreshProject s root options = .failed s.tree f ∧
        Obstructs s root (.refresh options) f) ∨
      ∃ written, Unprinted s root (.refresh options) written := by
  rw [refreshProject_eq]
  cases hplan : s.plan root options with
  | error f => exact .inr (.inl ⟨f, rfl, plan_eq_error_iff.mp hplan⟩)
  | ok planned =>
    obtain ⟨a, directories⟩ := planned
    dsimp only
    cases hdryRun : options.dryRun with
    | true => exact .inl rfl
    | false =>
      rw [if_neg (by simp)]
      cases hscope : options.scope with
      | changed => exact .inl (failure?_refreshDirectories (by simp) ..)
      | all => exact .inl (failure?_refreshDirectories (by simp) ..)
      | path p =>
        obtain ⟨c, filter, -, -, -, hdirectories⟩ := plan_eq_ok_iff.mp hplan
        rw [hscope] at hdirectories
        obtain ⟨d, -, heq⟩ := bind_eq_ok_iff.mp hdirectories
        obtain rfl := Except.ok.inj heq
        rcases refreshDirectories_path_cases a s.tree p d with h | ⟨hformat, hdecodes, r, hanalyzed⟩
        · exact .inl h
        · obtain ⟨-, -, -, hwrite⟩ := exists_write_of_analyze hanalyzed
          exact .inr (.inr ⟨_, .intro options a p d r _ hscope hdryRun hplan hformat hanalyzed hwrite
            hdecodes⟩)

lemma contextText_eq_error_iff {options : ContextOptions} :
    contextText s.tree root options = .error f ↔
      Unconfigured s.tree root f ∨ ∃ c, Configuration.load s.tree root = .ok c ∧
        ((∃ p, options.path? = some p ∧ Misleads s.tree root p f) ∨
          ∃ target, options.target s.tree root = .ok target ∧
            options.view.text s.tree root target = .error f) := by
  have htarget : options.target s.tree root = .error f ↔
      ∃ p, options.path? = some p ∧ Misleads s.tree root p f := by
    unfold ContextOptions.target
    cases options.path? <;> simp [resolveTarget_eq_error_iff]
  rw [← htarget, ← load_eq_error_iff, contextText, bind_eq_error_iff]
  unfold ContextOptions.target
  cases options.path? <;> simp [bind_eq_error_iff]

lemma showContext_of_error {options : ContextOptions}
    (h : contextText s.tree root options = .error f) :
    showContext s root options = .failed s.tree f := by
  unfold showContext
  rw [h]

lemma showContext_of_not_written {options : ContextOptions} {text : String} {e : FileError}
    (htext : contextText s.tree root options = .ok text) (hpath : options.output? = some path)
    (h : s.tree.writeText path text = .error e) :
    showContext s root options = .failed s.tree (.file e) := by
  unfold showContext
  rw [htext]
  simp only [hpath, h]

lemma showContext_cases (s : Session) (root : Path) (options : ContextOptions) :
    (showContext s root options).failure? = none ∨
      ∃ f, showContext s root options = .failed s.tree f ∧
        Obstructs s root (.context options) f := by
  cases htext : contextText s.tree root options with
  | error f =>
    refine .inr ⟨f, showContext_of_error htext, ?_⟩
    rcases contextText_eq_error_iff.mp htext with h | ⟨c, hload, ⟨p, hp, h⟩ | ⟨target, ht, h⟩⟩
    · exact .unconfiguredView options f h
    · exact .misledView options c p f hload hp h
    · exact .unread options c target f hload ht h (unread_of_text h)
  | ok text =>
    cases hpath : options.output? with
    | none =>
      left
      unfold showContext
      rw [htext]
      simp only [hpath, CommandResult.done]
    | some path =>
      cases hwritten : s.tree.writeText path text with
      | error e =>
        exact .inr ⟨.file e, showContext_of_not_written htext hpath hwritten,
          .unwritableView options text path e htext hpath hwritten⟩
      | ok written =>
        left
        unfold showContext
        rw [htext]
        simp only [hpath, hwritten, CommandResult.done]

/-- A command goes well, or it has changed nothing and printed nothing because something keeps it from
its work, or it has done its work and cannot print the record of it. -/
theorem Command.run_cases (s : Session) (root : Path) (command : Command) :
    (command.run s root).failure? = none ∨
      (∃ f, command.run s root = .failed s.tree f ∧ Obstructs s root command f) ∨
      ∃ written, Unprinted s root command written := by
  cases command with
  | init options => exact (setUpProject_cases s root options).imp_right .inl
  | refresh options => exact refreshProject_cases s root options
  | context options => exact (showContext_cases s root options).imp_right .inl

/-- What keeps a command from its work makes it fail. -/
theorem Obstructs.failure?_run {command : Command} (h : Obstructs s root command f) :
    (command.run s root).failure? = some (.operation f) := by
  have hrefresh : ∀ options, Obstructs s root (.refresh options) f →
      (refreshProject s root options).failure? = some (.operation f) := by
    intro options h
    rw [refreshProject_eq, plan_eq_error_iff.mpr h]
    rfl
  have hcontext : ∀ options, contextText s.tree root options = .error f →
      (showContext s root options).failure? = some (.operation f) := by
    intro options h
    rw [showContext_of_error h]
    rfl
  cases h with
  | patternGiven options _ h => simp only [Command.run, setUpProject, h, CommandResult.failed]
  | unwritable options filter e hfilter h =>
    simp only [Command.run, setUpProject, Configuration.save, hfilter, h, FileError.lift,
      CommandResult.failed]
  | unconfigured options _ h => exact hrefresh options (.unconfigured options f h)
  | patternRead options c _ hload h => exact hrefresh options (.patternRead options c f hload h)
  | unreported options c filter _ hload hfilter hscope h =>
    exact hrefresh options (.unreported options c filter f hload hfilter hscope h)
  | misledRefresh options c filter p _ hload hfilter hscope h =>
    exact hrefresh options (.misledRefresh options c filter p f hload hfilter hscope h)
  | unconfiguredView options _ h => exact hcontext options (contextText_eq_error_iff.mpr (.inl h))
  | misledView options c p _ hload hp h =>
    exact hcontext options (contextText_eq_error_iff.mpr (.inr ⟨c, hload, .inl ⟨p, hp, h⟩⟩))
  | unread options c target _ hload ht h _ =>
    exact hcontext options (contextText_eq_error_iff.mpr (.inr ⟨c, hload, .inr ⟨target, ht, h⟩⟩))
  | unwritableView options text path e htext hpath h =>
    rw [Command.run, showContext_of_not_written htext hpath h]
    rfl

/-! ## The program -/

/-- What is wrong where the program fails and has changed nothing, and its exit code. -/
inductive Faulty (s : Session) (arguments : List String) : UInt32 → Prop
  /-- The arguments make no command. -/
  | usage : Invocation.parse arguments = .error .usage → Faulty s arguments 2
  /-- The root of the project leads nowhere. -/
  | rootless (invocation : Invocation) (e : FileError) :
      Invocation.parse arguments = .ok invocation → s.tree.realPath invocation.root = .error e →
      Faulty s arguments 1
  /-- Something keeps the command from its work. -/
  | obstructed (invocation : Invocation) (root : Path) (f : Failure) :
      Invocation.parse arguments = .ok invocation → s.tree.realPath invocation.root = .ok root →
      Obstructs s root invocation.command f →
      Faulty s arguments (CommandFailure.operation f).exitCode

/-- The program has refreshed a directory and cannot print the record of it. -/
inductive Untold (s : Session) (arguments : List String) : FileTree → Prop
  | intro (invocation : Invocation) (root : Path) (written : FileTree) :
      Invocation.parse arguments = .ok invocation → s.tree.realPath invocation.root = .ok root →
      Unprinted s root invocation.command written → Untold s arguments written

section
variable {arguments : List String} {code : UInt32} {written : FileTree}

/-- What the program leaves where something is wrong. -/
lemma Faulty.run (h : Faulty s arguments code) : ∃ errors,
    runArguments s arguments = ⟨s.tree, code, "", errors⟩ := by
  cases h with
  | usage h => exact ⟨usageText, by rw [runArguments, h]⟩
  | rootless invocation e hparse h =>
    exact ⟨_, by simp only [runArguments, hparse, Invocation.run, h]; rfl⟩
  | obstructed invocation root f hparse hroot h =>
    have hfailure := h.failure?_run
    rcases invocation.command.run_cases s root with hnone | ⟨f', hrun, -⟩ | ⟨written, hunprinted⟩
    · rw [hnone] at hfailure
      cases hfailure
    · rw [hrun, CommandResult.failed, Option.some.injEq, CommandFailure.operation.injEq] at hfailure
      subst hfailure
      exact ⟨_, by simp only [runArguments, hparse, Invocation.run, hroot, hrun,
        CommandResult.failed]; rfl⟩
    · rw [hunprinted.run] at hfailure
      cases hfailure

lemma Untold.run (h : Untold s arguments written) : ∃ errors,
    runArguments s arguments = ⟨written, 1, "Refreshed 1 of 1 directories\n", errors⟩ := by
  cases h with
  | intro invocation root written hparse hroot h =>
    exact ⟨_, by simp only [runArguments, hparse, Invocation.run, hroot, h.run]; rfl⟩

lemma runArguments_cases (s : Session) (arguments : List String) :
    (runArguments s arguments).code = 0 ∨ Faulty s arguments (runArguments s arguments).code ∨
      ∃ written, Untold s arguments written := by
  unfold runArguments
  cases hparse : Invocation.parse arguments with
  | error reason =>
    cases reason with
    | version => exact .inl rfl
    | help => exact .inl rfl
    | usage => exact .inr (.inl (.usage hparse))
  | ok invocation =>
    dsimp only [Invocation.run]
    cases hroot : s.tree.realPath invocation.root with
    | error e => exact .inr (.inl (.rootless invocation e hparse hroot))
    | ok root =>
      rcases invocation.command.run_cases s root with h | ⟨f, h, hobstructs⟩ | ⟨written, h⟩
      · simp only [h, true_or]
      · right; left
        simp only [h, CommandResult.failed]
        exact .obstructed invocation root f hparse hroot hobstructs
      · exact .inr (.inr ⟨written, .intro invocation root written hparse hroot h⟩)

/-- What is wrong before the first write leaves every file and directory as it was, and no output. -/
lemma Faulty.unchanged (h : Faulty s arguments code) :
    (runArguments s arguments).tree = s.tree ∧ (runArguments s arguments).output = "" := by
  obtain ⟨errors, hrun⟩ := h.run
  rw [hrun]
  exact ⟨rfl, rfl⟩

lemma not_untold (h : s.tree.undecodable = []) : ¬Untold s arguments written := by
  rintro ⟨invocation, root, written, -, -, hunprinted⟩
  exact not_unprinted h hunprinted

end

/-- A project with one file, and nobody to ask. -/
def loneSession : Session where
  tree := { entries := [(["notes.md"], .file "One".toUTF8 1)] }
  environment _ := none
  git _ _ := .ok none
  send _ := .unreachable "not connected"

end DirectoryNotes
