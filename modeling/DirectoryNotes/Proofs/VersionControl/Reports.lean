import DirectoryNotes.Plan
import DirectoryNotes.Proofs.Text.Decoding
import Mathlib.Data.String.Basic

/-!
# Reports of changes

Whatever the program prints is read as a report of changes. A line of it is cut behind its mark, three
bytes from its front, and that is the one thing that can go wrong:

* `cutBytes?_eq_some_iff`, `exists_cutBytes?_iff`: where a line can be cut;
* `IsCut`: the lines that cannot be read, and `mapM_pathOfLine`: a report fails on the first of them;
* `changedFiles_broken_iff`, `changedDirectories_eq`: the same for the question put to the program and
  for the directories of a refresh;
* `exists_changedDirectories_iff`: which reports are read.
-/

namespace DirectoryNotes

namespace Status

variable {n : Nat} {cs front rest : List Char} {line : String} {lines : List String} {f : Failure}

/-! ## Cutting a line -/

/-- A cut parts the text, and the front has the bytes that were asked for. -/
lemma cutBytes?_eq_some_iff :
    cutBytes? n cs = some (front, rest) ↔ cs = front ++ rest ∧ String.utf8Len front = n := by
  fun_induction cutBytes? n cs generalizing front with
  | case1 cs =>
    rw [String.utf8Len_eq_zero]
    constructor
    · intro h
      cases h
      exact ⟨rfl, rfl⟩
    · rintro ⟨hcs, rfl⟩
      rw [hcs]
      rfl
  | case2 n =>
    constructor
    · intro h
      cases h
    · rintro ⟨hnil, hsize⟩
      rw [(List.append_eq_nil_iff.mp hnil.symm).1] at hsize
      cases hsize
  | case3 n c cs hfits ih =>
    have hpos := c.utf8Size_pos
    simp only [Option.map_eq_some_iff, Prod.exists, Prod.mk.injEq]
    constructor
    · rintro ⟨taken, rest', h, rfl, rfl⟩
      obtain ⟨rfl, hsize⟩ := ih.mp h
      refine ⟨rfl, ?_⟩
      rw [String.utf8Len_cons]
      omega
    · rintro ⟨hcs, hsize⟩
      obtain ⟨rfl, -⟩ | ⟨taken, rfl, rfl⟩ := List.cons_eq_append_iff.mp hcs
      · cases hsize
      · rw [String.utf8Len_cons] at hsize
        exact ⟨taken, rest, ih.mpr ⟨rfl, by omega⟩, rfl, rfl⟩
  | case4 n c cs hfits =>
    constructor
    · intro h
      cases h
    · rintro ⟨hcs, hsize⟩
      obtain ⟨rfl, -⟩ | ⟨taken, rfl, -⟩ := List.cons_eq_append_iff.mp hcs
      · cases hsize
      · rw [String.utf8Len_cons] at hsize
        omega

/-- A text can be cut where a character begins or the text ends. -/
lemma exists_cutBytes?_iff :
    (∃ cut, cutBytes? n line.toList = some cut) ↔ (String.Pos.Raw.mk n).IsValid line := by
  rw [String.Pos.Raw.isValid_iff_exists_append, Prod.exists]
  constructor
  · rintro ⟨front, rest, h⟩
    obtain ⟨hline, hsize⟩ := cutBytes?_eq_some_iff.mp h
    refine ⟨.ofList front, .ofList rest, ?_, ?_⟩
    · rw [← String.ofList_append, ← hline, String.ofList_toList]
    · rw [String.rawEndPos, String.utf8ByteSize_ofList, hsize]
  · rintro ⟨front, rest, rfl, hsize⟩
    refine ⟨front.toList, rest.toList, cutBytes?_eq_some_iff.mpr ⟨String.toList_append, ?_⟩⟩
    rw [← String.utf8ByteSize_ofList, String.ofList_toList]
    exact (congrArg String.Pos.Raw.byteIdx hsize).symm

/-- The path would begin inside a character of the line. -/
def IsCut (line : String) : Prop :=
  markBytes < line.utf8ByteSize ∧ ¬(String.Pos.Raw.mk markBytes).IsValid line

instance : DecidablePred IsCut := fun _ => instDecidableAnd

lemma pathOfLine_eq_error_iff : pathOfLine line = .error f ↔ IsCut line ∧ f = .brokenLine line := by
  unfold pathOfLine IsCut
  rw [← exists_cutBytes?_iff]
  by_cases hshort : line.utf8ByteSize ≤ markBytes
  · rw [if_pos hshort]
    have hnot : ¬markBytes < line.utf8ByteSize := Nat.not_lt.mpr hshort
    simp [hnot]
  · rw [if_neg hshort]
    have hlong : markBytes < line.utf8ByteSize := Nat.lt_of_not_le hshort
    cases hcut : cutBytes? markBytes line.toList with
    | none => simp [hlong, eq_comm]
    | some cut =>
      simp only [hlong, Option.some.injEq, exists_eq', not_true_eq_false, and_false, false_and,
        iff_false]
      split
      · simp
      · split <;> simp

/-! ## Reports -/

/-- The path in a line, if the line can be read and tells one. -/
def pathIn? (line : String) : Option Path := (pathOfLine line).toOption.join

lemma pathOfLine_eq (line : String) :
    pathOfLine line = if IsCut line then .error (.brokenLine line) else .ok (pathIn? line) := by
  unfold pathIn?
  cases h : pathOfLine line with
  | error f =>
    obtain ⟨hcut, rfl⟩ := pathOfLine_eq_error_iff.mp h
    rw [if_pos hcut]
  | ok path? =>
    rw [if_neg]
    · rfl
    · intro hcut
      rw [pathOfLine_eq_error_iff.mpr ⟨hcut, rfl⟩] at h
      cases h

/-- The first line that cannot be read. -/
def firstCut? (lines : List String) : Option String := lines.find? fun line => IsCut line

lemma firstCut?_eq_none_iff : firstCut? lines = none ↔ ∀ line ∈ lines, ¬IsCut line := by
  simp [firstCut?]

/-- A report fails on the first line that cannot be read. -/
lemma mapM_pathOfLine (lines : List String) :
    lines.mapM pathOfLine =
      match firstCut? lines with
      | some line => .error (.brokenLine line)
      | none => .ok (lines.map pathIn?) := by
  induction lines with
  | nil => rfl
  | cons line lines ih =>
    rw [List.mapM_cons, pathOfLine_eq, ih]
    by_cases hcut : IsCut line
    · have hfirst : firstCut? (line :: lines) = some line :=
        List.find?_cons_of_pos (decide_eq_true hcut)
      rw [if_pos hcut, hfirst]
      rfl
    · have hfirst : firstCut? (line :: lines) = firstCut? lines :=
        List.find?_cons_of_neg (by simpa using hcut)
      rw [if_neg hcut, hfirst]
      cases firstCut? lines with
      | some broken => rfl
      | none => rfl

lemma paths_eq (report : String) :
    paths report =
      match firstCut? (Text.linesOf report) with
      | some line => .error (.brokenLine line)
      | none => .ok ((Text.linesOf report).filterMap pathIn?) := by
  unfold paths
  rw [mapM_pathOfLine]
  cases firstCut? (Text.linesOf report) with
  | some line => rfl
  | none =>
    show Except.ok (((Text.linesOf report).map pathIn?).filterMap id) = _
    rw [List.filterMap_map]
    rfl

end Status

/-! ## Asking for a report -/

namespace Git

/-- What the program is asked for the top of the working tree. -/
abbrev topArguments : List String := ["rev-parse", "--show-toplevel"]

/-- What the program is asked for the changes below the top. -/
abbrev statusArguments : List String := ["status", "--porcelain", "--untracked-files=all"]

/-- The top of a working tree and the lines of the report on it, as the program prints them. -/
def Reports (git : Git) (root top : Path) (lines : List String) : Prop :=
  ∃ printed report, git root topArguments = .ok (some printed) ∧
    top = ⟨Text.trim (Text.decode printed)⟩ ∧ git top statusArguments = .ok (some report) ∧
      lines = Text.linesOf (Text.decode report)

variable {git : Git} {root top : Path} {lines : List String} {t : FileTree} {filter : IgnoreFilter}

lemma output?_eq_ok {directory : Path} {arguments : List String} {printed : Option ByteArray}
    (h : git directory arguments = .ok printed) :
    git.output? directory arguments = .ok (printed.map Text.decode) := by
  unfold output?
  rw [h]

lemma output?_eq_error {directory : Path} {arguments : List String} {e : FileError}
    (h : git directory arguments = .error e) :
    git.output? directory arguments = .error (.git ("Failed to run git: " ++ e.message)) := by
  unfold output?
  rw [h]

lemma changedFiles_of_reports (h : git.Reports root top lines) :
    git.changedFiles root = match Status.firstCut? lines with
      | some line => .error (.brokenLine line)
      | none => .ok ((lines.filterMap Status.pathIn?).map top.join) := by
  obtain ⟨printed, report, hprinted, rfl, hreport, rfl⟩ := h
  have htop : git.output? root topArguments = .ok (some (Text.decode printed)) :=
    output?_eq_ok hprinted
  have hstatus : git.output? ⟨Text.trim (Text.decode printed)⟩ statusArguments =
      .ok (some (Text.decode report)) := output?_eq_ok hreport
  unfold changedFiles
  rw [htop]
  simp only [bind, Except.bind, hstatus, Status.paths_eq]
  cases Status.firstCut? (Text.linesOf (Text.decode report)) with
  | some line => rfl
  | none => rfl

/-- Without a report nothing is read: nothing changed, or the program could not be started. -/
lemma changedFiles_of_silent (h : ∀ top lines, ¬git.Reports root top lines) :
    git.changedFiles root = .ok [] ∨ ∃ reason, git.changedFiles root = .error (.git reason) := by
  unfold changedFiles
  cases hprinted : git root topArguments with
  | error e =>
    rw [output?_eq_error hprinted]
    exact .inr ⟨_, rfl⟩
  | ok printed =>
    rw [output?_eq_ok hprinted]
    cases printed with
    | none => exact .inl rfl
    | some printed =>
      simp only [Option.map_some, bind, Except.bind]
      cases hreport : git ⟨Text.trim (Text.decode printed)⟩ statusArguments with
      | error e =>
        rw [output?_eq_error hreport]
        exact .inr ⟨_, rfl⟩
      | ok report =>
        rw [output?_eq_ok hreport]
        cases report with
        | none => exact .inl rfl
        | some report => exact absurd ⟨printed, report, hprinted, rfl, hreport, rfl⟩ (h _ _)

lemma changedFiles_broken_iff : (∃ line, git.changedFiles root = .error (.brokenLine line)) ↔
    ∃ top lines, git.Reports root top lines ∧ ∃ line ∈ lines, Status.IsCut line := by
  constructor
  · rintro ⟨line, hbroken⟩
    by_cases hreports : ∃ top lines, git.Reports root top lines
    · obtain ⟨top, lines, hlines⟩ := hreports
      refine ⟨top, lines, hlines, ?_⟩
      by_contra hwhole
      have hfirst : Status.firstCut? lines = none :=
        Status.firstCut?_eq_none_iff.mpr fun line hline hcut => hwhole ⟨line, hline, hcut⟩
      rw [changedFiles_of_reports hlines, hfirst] at hbroken
      cases hbroken
    · rcases changedFiles_of_silent fun top lines h => hreports ⟨top, lines, h⟩ with
        hnone | ⟨reason, hfailed⟩
      · rw [hnone] at hbroken
        cases hbroken
      · rw [hfailed] at hbroken
        cases hbroken
  · rintro ⟨top, lines, hlines, line, hline, hcut⟩
    cases hfirst : Status.firstCut? lines with
    | none => exact absurd hcut (Status.firstCut?_eq_none_iff.mp hfirst line hline)
    | some first => exact ⟨first, by rw [changedFiles_of_reports hlines, hfirst]⟩

/-! ## The directories of a refresh -/

/-- Only a report that cannot be read ends a refresh; any other trouble leaves it nothing to do. -/
lemma changedDirectories_eq (git : Git) (t : FileTree) (root : Path) (filter : IgnoreFilter) :
    changedDirectories t root filter git.toVersionControl = match git.changedFiles root with
      | .error (.brokenLine line) => .error (.brokenLine line)
      | .error _ => .ok []
      | .ok paths => .ok (affectedDirectories t root filter paths) := by
  have hreply : changedDirectories t root filter git.toVersionControl =
      (git.toVersionControl.changedFiles root).map fun reply =>
        affectedDirectories t root filter (reply.value?.getD []) := rfl
  rw [hreply]
  simp only [toVersionControl]
  cases git.changedFiles root with
  | ok paths => rfl
  | error f => cases f <;> rfl

lemma exists_changedDirectories_eq_ok_iff :
    (∃ directories, changedDirectories t root filter git.toVersionControl = .ok directories) ↔
      ¬∃ line, git.changedFiles root = .error (.brokenLine line) := by
  rw [changedDirectories_eq]
  cases git.changedFiles root with
  | ok paths => simp
  | error f => cases f <;> simp

end Git

/-- A report is read if no line of it would be cut inside a character, and only then. The directories
are those of the paths in it, and there are none without a report. -/
theorem exists_changedDirectories_iff (git : Git) (t : FileTree) (root : Path)
    (filter : IgnoreFilter) :
    ((∃ directories, changedDirectories t root filter git.toVersionControl = .ok directories) ↔
      ∀ top lines, git.Reports root top lines → ∀ line ∈ lines, ¬Status.IsCut line) ∧
    ((∃ line, git.changedFiles root = .error (.brokenLine line)) ↔
      ∃ top lines, git.Reports root top lines ∧ ∃ line ∈ lines, Status.IsCut line) ∧
    ∀ directories, changedDirectories t root filter git.toVersionControl = .ok directories →
      (∃ top lines, git.Reports root top lines ∧ directories = affectedDirectories t root filter
        ((lines.filterMap Status.pathIn?).map top.join)) ∨
      (∀ top lines, ¬git.Reports root top lines) ∧ directories = [] := by
  refine ⟨?_, Git.changedFiles_broken_iff, ?_⟩
  · rw [Git.exists_changedDirectories_eq_ok_iff, Git.changedFiles_broken_iff]
    push Not
    rfl
  · intro directories h
    rw [Git.changedDirectories_eq] at h
    by_cases hreports : ∃ top lines, git.Reports root top lines
    · obtain ⟨top, lines, hlines⟩ := hreports
      rw [Git.changedFiles_of_reports hlines] at h
      cases hfirst : Status.firstCut? lines with
      | some line =>
        rw [hfirst] at h
        cases h
      | none =>
        rw [hfirst] at h
        exact .inl ⟨top, lines, hlines, (Except.ok.inj h).symm⟩
    · have hsilent : ∀ top lines, ¬git.Reports root top lines := fun top lines hlines =>
        hreports ⟨top, lines, hlines⟩
      refine .inr ⟨hsilent, ?_⟩
      rcases Git.changedFiles_of_silent hsilent with hnone | ⟨reason, hfailed⟩
      · rw [hnone] at h
        exact (Except.ok.inj h).symm
      · rw [hfailed] at h
        exact (Except.ok.inj h).symm

/-- A program that reports a name of accented letters without a mark. -/
def accentGit : Git := fun _ arguments =>
  .ok (some (if arguments = Git.topArguments then "/\n" else "éé.ts\n").toUTF8)

theorem changedDirectories_accentGit :
    accentGit.changedFiles ⟨"/"⟩ = .error (.brokenLine "éé.ts") ∧
      changedDirectories {} ⟨"/"⟩ (.everything ⟨"/"⟩) accentGit.toVersionControl =
        .error (.brokenLine "éé.ts") := by
  have hreports : accentGit.Reports ⟨"/"⟩ ⟨"/"⟩ ["éé.ts"] := by
    refine ⟨_, _, rfl, ?_, rfl, ?_⟩
    · rw [Text.decode_toUTF8]
      decide
    · rw [Text.decode_toUTF8]
      decide
  have hfirst : Status.firstCut? ["éé.ts"] = some "éé.ts" := by decide
  have hfiles : accentGit.changedFiles ⟨"/"⟩ = .error (.brokenLine "éé.ts") := by
    rw [Git.changedFiles_of_reports hreports, hfirst]
  refine ⟨hfiles, ?_⟩
  rw [Git.changedDirectories_eq, hfiles]

end DirectoryNotes
