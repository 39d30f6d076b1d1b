import DirectoryNotes.Proofs.Directory.Assistance
import DirectoryNotes.Proofs.Text.Decoding
import DirectoryNotes.Proofs.Text.Items

/-!
# Commits read back from a log

A log is printed with one commit on a line and the separator between its parts. The separator may
come again in a message, and other lines may stand between those of commits:

* `parts?_printed`, `parts?_eq_none`: the parts of a line, by the separators in it;
* `commits_eq`: a log is read line by line, and a return before a line end makes no difference;
* `Line`, `text`: a log as it is printed, and `commits_text`: what is read of it;
* `recentChanges_printed`: the commits and the changes of a record, for every log.
-/

namespace DirectoryNotes

open Text (isBlank join pieces trim trimBy)

namespace Log

variable {id date message line : List Char}

/-! ## Parts of a line -/

lemma bne_separator {front : List Char} (hfront : separator ∉ front) :
    ∀ c ∈ front, (c != separator) = true := by
  intro c hc
  rw [bne_iff_ne]
  exact ne_of_mem_of_not_mem hc hfront

lemma takeWhile_append_separator {front : List Char} (hfront : separator ∉ front)
    (rest : List Char) : (front ++ separator :: rest).takeWhile (· != separator) = front := by
  rw [List.takeWhile_append_of_pos (bne_separator hfront), List.takeWhile_cons_of_neg (by simp),
    List.append_nil]

lemma parts?_printed (hid : separator ∉ id) (hdate : separator ∉ date) (message : List Char) :
    parts? (id ++ separator :: (date ++ separator :: message)) = some (id, date, message) := by
  unfold parts?
  simp only [takeWhile_append_separator hid, takeWhile_append_separator hdate, List.drop_left]

/-- A line without a separator, or the text before the first one and what follows. -/
lemma exists_front (line : List Char) : separator ∉ line ∨
    ∃ front rest, line = front ++ separator :: rest ∧ separator ∉ front := by
  by_cases h : separator ∈ line
  · obtain ⟨front, rest, hfront, hline⟩ := List.eq_append_cons_of_mem h
    exact .inr ⟨front, rest, hfront, hline⟩
  · exact .inl h

/-- Two separators make a line of three parts. -/
lemma exists_parts (h : 2 ≤ line.count separator) : ∃ id date message,
    line = id ++ separator :: (date ++ separator :: message) ∧ separator ∉ id ∧ separator ∉ date := by
  rcases exists_front line with hnone | ⟨id, rest, rfl, hid⟩
  · rw [List.count_eq_zero.mpr hnone] at h
    omega
  · rw [List.count_append, List.count_eq_zero.mpr hid, List.count_cons_self] at h
    rcases exists_front rest with hnone | ⟨date, message, rfl, hdate⟩
    · rw [List.count_eq_zero.mpr hnone] at h
      omega
    · exact ⟨id, date, message, rfl, hid, hdate⟩

lemma parts?_eq_none (h : line.count separator < 2) : parts? line = none := by
  have hnone : ∀ {cs : List Char}, separator ∉ cs →
      cs.drop (cs.takeWhile (· != separator)).length = [] := by
    intro cs hcs
    rw [List.takeWhile_eq_self_iff.mpr (bne_separator hcs), List.drop_length]
  unfold parts?
  rcases exists_front line with hline | ⟨id, rest, rfl, hid⟩
  · simp only [hnone hline]
  · rw [List.count_append, List.count_cons_self] at h
    have hrest : separator ∉ rest := by
      rw [← List.count_eq_zero]
      omega
    simp only [takeWhile_append_separator hid, List.drop_left, hnone hrest]

/-! ## Lines -/

/-- The commit in a line, given by its characters. -/
def commitIn? (line : List Char) : Option Commit := commitOfLine? (.ofList line)

lemma commitIn?_printed (hid : separator ∉ id) (hdate : separator ∉ date) (message : List Char) :
    commitIn? (id ++ separator :: (date ++ separator :: message)) =
      if trimmed id = "" then none else some ⟨trimmed id, trimmed date, trimmed message⟩ := by
  unfold commitIn? commitOfLine?
  rw [String.toList_ofList, parts?_printed hid hdate]
  rfl

lemma commitIn?_of_few (h : line.count separator < 2) : commitIn? line = none := by
  unfold commitIn? commitOfLine?
  rw [String.toList_ofList, parts?_eq_none h]
  rfl

/-- A line whose id is blank holds no commit. -/
lemma commitIn?_of_blank (h : (line.takeWhile (· != separator)).all isBlank = true) :
    commitIn? line = none := by
  by_cases htwo : 2 ≤ line.count separator
  · obtain ⟨id, date, message, rfl, hid, hdate⟩ := exists_parts htwo
    rw [takeWhile_append_separator hid] at h
    have hempty : trimmed id = "" := by rw [trimmed, Text.trimBy_eq_nil h, String.ofList_nil]
    rw [commitIn?_printed hid hdate, if_pos hempty]
  · exact commitIn?_of_few (Nat.lt_of_not_le htwo)

/-- A carriage return at the end of a line is a blank behind the message. -/
lemma commitIn?_return (line : List Char) : commitIn? (line ++ ['\r']) = commitIn? line := by
  by_cases htwo : 2 ≤ line.count separator
  · obtain ⟨id, date, message, rfl, hid, hdate⟩ := exists_parts htwo
    have hreturn : trimmed (message ++ ['\r']) = trimmed message :=
      congrArg String.ofList (Text.trimBy_concat (by decide) message)
    have hmore : id ++ separator :: (date ++ separator :: message) ++ ['\r'] =
        id ++ separator :: (date ++ separator :: (message ++ ['\r'])) := by simp
    rw [hmore, commitIn?_printed hid hdate, commitIn?_printed hid hdate, hreturn]
  · have hfew : line.count separator < 2 := Nat.lt_of_not_le htwo
    have hcount : (line ++ ['\r']).count separator = line.count separator := by
      rw [List.count_append]
      rfl
    rw [commitIn?_of_few hfew, commitIn?_of_few (hcount ▸ hfew)]

lemma commitIn?_dropCarriageReturn (line : List Char) :
    commitIn? (Text.dropCarriageReturn line) = commitIn? line := by
  unfold Text.dropCarriageReturn
  split
  · next hlast =>
    obtain ⟨front, rfl⟩ := List.getLast?_eq_some_iff.mp hlast
    rw [List.dropLast_concat, commitIn?_return]
  · rfl

/-- A log is read piece by piece, whichever way its lines end. -/
lemma commits_eq (log : String) : commits log = (pieces '\n' log.toList).filterMap commitIn? := by
  obtain ⟨front, last, hparts⟩ := List.eq_nil_or_concat (pieces '\n' log.toList) |>.resolve_left
    (Text.pieces_ne_nil _ _)
  rw [List.concat_eq_append] at hparts
  have hfront : (front.map Text.dropCarriageReturn).filterMap commitIn? =
      front.filterMap commitIn? := by
    rw [List.filterMap_map]
    exact List.filterMap_congr fun line _ => commitIn?_dropCarriageReturn line
  -- what follows the last line feed is left out when it is empty, which makes no commit
  have hlast : (if last = [] then [] else [last]).filterMap commitIn? =
      [last].filterMap commitIn? := by
    split
    · next hnil =>
      rw [hnil]
      rfl
    · rfl
  calc commits log
      = (Text.lines log.toList).filterMap commitIn? := by
        rw [commits, Text.linesOf, List.filterMap_map]
        rfl
    _ = (front ++ [last]).filterMap commitIn? := by
        rw [Text.lines, hparts, List.dropLast_concat, List.getLast?_concat, Option.getD_some,
          List.filterMap_append, List.filterMap_append, hfront, hlast]
    _ = (pieces '\n' log.toList).filterMap commitIn? := by rw [hparts]

/-! ## Printing -/

/-- A commit that can be printed: its parts are one line without blanks at the ends, the id is not
empty, and only the message may hold the separator. -/
structure IsPlain (c : Commit) : Prop where
  named : c.id ≠ ""
  id : separator ∉ c.id.toList ∧ '\n' ∉ c.id.toList
  date : separator ∉ c.date.toList ∧ '\n' ∉ c.date.toList
  message : '\n' ∉ c.message.toList
  trimmed : trim c.id = c.id ∧ trim c.date = c.date ∧ trim c.message = c.message

/-- A line of a log: a commit, or something else. -/
inductive Line where
  | commit (c : Commit)
  | other (text : String)

namespace Line

/-- The line as it is printed. -/
def text : Line → String
  | .commit c =>
    .ofList (c.id.toList ++ separator :: (c.date.toList ++ separator :: c.message.toList))
  | .other text => text

/-- The commit of the line. -/
def commit? : Line → Option Commit
  | .commit c => some c
  | .other _ => none

/-- The line can be told apart: a commit that can be printed, or else one line in which a separator
is missing or the id is blank. -/
def IsClear : Line → Prop
  | .commit c => IsPlain c
  | .other text => '\n' ∉ text.toList ∧ (text.toList.count separator < 2 ∨
      (text.toList.takeWhile (· != separator)).all isBlank = true)

variable {l : Line}

lemma IsClear.newline_notMem (h : l.IsClear) : '\n' ∉ l.text.toList := by
  cases l with
  | commit c =>
    have hseparator : '\n' ≠ separator := by decide
    have hplain : IsPlain c := h
    rw [text, String.toList_ofList]
    simp [hplain.id.2, hplain.date.2, hplain.message, hseparator]
  | other text => exact h.1

lemma IsClear.commitIn?_eq (h : l.IsClear) : commitIn? l.text.toList = l.commit? := by
  cases l with
  | commit c =>
    have hplain : IsPlain c := h
    have htrimmed : ∀ s : String, Log.trimmed s.toList = trim s := fun _ => rfl
    obtain ⟨hid, hdate, hmessage⟩ := hplain.trimmed
    rw [text, String.toList_ofList, commitIn?_printed hplain.id.1 hplain.date.1, htrimmed, htrimmed,
      htrimmed, hid, hdate, hmessage, if_neg hplain.named]
    rfl
  | other text =>
    rcases h.2 with hfew | hblank
    · exact commitIn?_of_few hfew
    · exact commitIn?_of_blank hblank

end Line

/-- A log as it is printed: its lines, and maybe a line feed after the last one. -/
def text (lines : List Line) (ending : String) : String :=
  join "\n" (lines.map Line.text) ++ ending

variable {lines : List Line} {ending : String}

lemma pieces_text (hlines : ∀ l ∈ lines, l.IsClear) (hne : lines ≠ [])
    (hending : ending = "" ∨ ending = "\n") : ∃ last : List (List Char),
      (∀ piece ∈ last, piece = []) ∧
        pieces '\n' (text lines ending).toList = lines.map (·.text.toList) ++ last := by
  have hrows : pieces '\n' ("\n".toList.intercalate (lines.map (·.text.toList))) =
      lines.map (·.text.toList) := by
    apply Text.pieces_intercalate
    · simpa using hne
    · intro row hrow
      obtain ⟨l, hl, rfl⟩ := List.mem_map.mp hrow
      exact (hlines l hl).newline_notMem
  have htext : (text lines ending).toList =
      "\n".toList.intercalate (lines.map (·.text.toList)) ++ ending.toList := by
    rw [text, String.toList_append, join, String.toList_intercalate, List.map_map]
    rfl
  rw [htext]
  rcases hending with rfl | rfl
  · refine ⟨[], by simp, ?_⟩
    show pieces '\n' (_ ++ []) = _
    rw [List.append_nil, hrows, List.append_nil]
  · refine ⟨[[]], by simp, ?_⟩
    show pieces '\n' (_ ++ '\n' :: []) = _
    rw [Text.pieces_append_cons, hrows]
    rfl

/-- What is read of a log are the commits that were printed. -/
lemma commits_text (hlines : ∀ l ∈ lines, l.IsClear) (hending : ending = "" ∨ ending = "\n") :
    commits (text lines ending) = lines.filterMap Line.commit? := by
  by_cases hne : lines = []
  · subst hne
    rcases hending with rfl | rfl <;> rfl
  · obtain ⟨last, hlast, hpieces⟩ := pieces_text hlines hne hending
    have hnone : last.filterMap commitIn? = [] := by
      rw [List.filterMap_eq_nil_iff]
      intro piece hpiece
      rw [hlast piece hpiece]
      rfl
    rw [commits_eq, hpieces, List.filterMap_append, hnone, List.append_nil, List.filterMap_map]
    exact List.filterMap_congr fun l hl => (hlines l hl).commitIn?_eq

end Log

/-! ## Asking for a log -/

/-- What the program is asked for the latest commits. -/
abbrev Git.logArguments (limit : Nat) : List String :=
  ["log", "-n" ++ toString limit, "--date=short", "--format=" ++ Log.format]

variable {git : Git} {repository directory : Path} {limit : Nat} {lines : List Log.Line}
  {ending : String} {a : Analyzer} {t : FileTree} {names : List String} {commits : List Commit}

lemma Git.recentCommits_eq {log : String}
    (h : git repository (logArguments limit) = .ok (some log.toUTF8)) :
    git.recentCommits repository limit = .ok (Log.commits log) := by
  have houtput : git.output? repository (logArguments limit) = .ok (some log) := by
    unfold Git.output?
    rw [h]
    show Except.ok (some (Text.decode log.toUTF8)) = _
    rw [Text.decode_toUTF8]
  unfold recentCommits
  dsimp only
  rw [houtput]
  rfl

namespace Analyzer

/-- Every directory that can be listed has a record with the changes of its repository. -/
lemma exists_record_recentChanges (h : t.listDirectory directory = .ok names) :
    ∃ r questions, a.record t directory = .ok (r, questions) ∧
      r.recentChanges = a.recentChanges t directory := by
  obtain ⟨paths, hpaths⟩ : ∃ paths, a.visibleFiles t directory = .ok paths :=
    ⟨_, by rw [visibleFiles, h]; rfl⟩
  obtain ⟨questions, hrecord⟩ := record_eq hpaths rfl
  exact ⟨_, questions, hrecord, rfl⟩

lemma recentChanges_eq (hgit : a.versionControl = git.toVersionControl)
    (hroot : repositoryRoot? t directory = some repository)
    (hcommits : git.recentCommits repository changeLimit = .ok commits) :
    a.recentChanges t directory = (commits.take changeLimit).map Change.ofCommit := by
  unfold recentChanges
  rw [hroot, hgit]
  simp only [Git.toVersionControl, hcommits]
  rfl

/-- A log is read as the commits that were printed in it, and a record shows the first five. -/
theorem recentChanges_printed (hlines : ∀ l ∈ lines, l.IsClear)
    (hending : ending = "" ∨ ending = "\n")
    (hprinted : git repository (Git.logArguments limit) =
      .ok (some (Log.text lines ending).toUTF8)) :
    git.recentCommits repository limit = .ok (lines.filterMap Log.Line.commit?) ∧
      (limit = changeLimit → ∀ (a : Analyzer) (t : FileTree) (directory : Path) (names : List String),
        a.versionControl = git.toVersionControl → repositoryRoot? t directory = some repository →
          t.listDirectory directory = .ok names →
            ∃ r questions, a.record t directory = .ok (r, questions) ∧
              r.recentChanges.map (fun c => (c.commit, c.date, c.description)) =
                ((lines.filterMap Log.Line.commit?).take 5).map
                  fun c => (c.id, c.date, c.message)) := by
  have hcommits : git.recentCommits repository limit = .ok (lines.filterMap Log.Line.commit?) := by
    rw [Git.recentCommits_eq hprinted, Log.commits_text hlines hending]
  refine ⟨hcommits, ?_⟩
  intro hlimit a t directory names hgit hroot hlist
  subst hlimit
  obtain ⟨r, questions, hrecord, hchanges⟩ := exists_record_recentChanges hlist
  refine ⟨r, questions, hrecord, ?_⟩
  rw [hchanges, recentChanges_eq hgit hroot hcommits, List.map_map]
  rfl

/-- Two commits among other lines, one with separators in its message and one without a message. -/
def mixedLog : List Log.Line :=
  [.commit ⟨"a1f", "2024-05-02", "fix: a\x1fb\x1fc"⟩, .other "gpg: no key",
    .other " \x1fnobody\x1f", .commit ⟨"09c", "2024-05-01", ""⟩]

/-- A program that prints this log. -/
def mixedGit : Git := fun _ _ => .ok (some (Log.text mixedLog "\n").toUTF8)

/-- A repository with nothing else in it. -/
def bareRepository : FileTree where
  entries := [([".git"], .directory)]

lemma repositoryRoot?_bareRepository : repositoryRoot? bareRepository ⟨"/"⟩ = some ⟨"/"⟩ := by
  have hname : IsPlainName ".git" := by decide
  have hlink : ∀ target, bareRepository.entryAt? ([] ++ [".git"]) ≠ some (.link target) := by
    intro target h
    cases h
  have hfind : bareRepository.find ((Path.mk "/").join ⟨".git"⟩) = .ok ([".git"], .directory) :=
    (FileTree.find_join_iff (FileTree.find_slash _) hname hlink).mpr
      ⟨by decide, by decide, rfl, rfl⟩
  have hreaches : bareRepository.reaches ((Path.mk "/").join ⟨".git"⟩) = true := by
    unfold FileTree.reaches
    rw [hfind]
    rfl
  exact List.find?_cons_of_pos hreaches

theorem recentChanges_printed_mixedLog : (∀ l ∈ mixedLog, l.IsClear) ∧
    mixedGit.recentCommits ⟨"/"⟩ 5 =
      .ok [⟨"a1f", "2024-05-02", "fix: a\x1fb\x1fc"⟩, ⟨"09c", "2024-05-01", ""⟩] ∧
    ∃ r questions, (Analyzer.mk {} ⟨⟨"/"⟩, []⟩ none mixedGit.toVersionControl).record bareRepository
        ⟨"/"⟩ = .ok (r, questions) ∧
      r.recentChanges.map (fun c => (c.commit, c.date, c.description)) =
        [("a1f", "2024-05-02", "fix: a\x1fb\x1fc"), ("09c", "2024-05-01", "")] := by
  have hlines : ∀ l ∈ mixedLog, l.IsClear := by
    simp only [mixedLog, List.forall_mem_cons, List.not_mem_nil, false_implies, implies_true,
      and_true]
    exact ⟨⟨by decide, by decide, by decide, by decide, by decide⟩, ⟨by decide, by decide⟩,
      ⟨by decide, by decide⟩, ⟨by decide, by decide, by decide, by decide, by decide⟩⟩
  have hprinted : mixedGit ⟨"/"⟩ (Git.logArguments 5) =
      .ok (some (Log.text mixedLog "\n").toUTF8) := rfl
  obtain ⟨hcommits, hrecord⟩ := recentChanges_printed hlines (.inr rfl) hprinted
  exact ⟨hlines, hcommits, hrecord rfl ⟨{}, ⟨⟨"/"⟩, []⟩, none, mixedGit.toVersionControl⟩
    bareRepository ⟨"/"⟩ _ rfl repositoryRoot?_bareRepository
      (FileTree.listDirectory_of_find (FileTree.find_slash _))⟩

end Analyzer

end DirectoryNotes
