import DirectoryNotes.Document
import DirectoryNotes.Proofs.Pattern.Matching
import DirectoryNotes.Proofs.Text.Lines

/-!
# Reading the ranking back

The ranked files stand between their heading and the next one, a line for each and perhaps one for
its functions. What was rendered is therefore read back, as long as nothing above looks like the
heading and nothing in a line of a file ends the line or the quoted name:

* `LacksHeading`: no line of a text is the heading of the ranked files;
* `keyFiles_eq`: what is read is what stands in the lines below the first such heading;
* `fileOfLine?_fileLine`: the line of a file is read back;
* `keyFiles_render`: so is the ranking of a record.
-/

namespace DirectoryNotes

/-- A file whose lines in a document are lines, and whose name can be told from what follows it. -/
structure FileSummary.IsLegible (f : FileSummary) : Prop where
  name_ne_empty : f.name ≠ ""
  name_unquoted : '\x60' ∉ f.name.toList
  name_line : '\n' ∉ f.name.toList
  description_line : '\n' ∉ f.description.toList
  functions_line : ∀ g ∈ f.functions, '\n' ∉ g.toList

instance (f : FileSummary) : Decidable f.IsLegible :=
  decidable_of_iff
    (f.name ≠ "" ∧ '\x60' ∉ f.name.toList ∧ '\n' ∉ f.name.toList ∧ '\n' ∉ f.description.toList ∧
      ∀ g ∈ f.functions, '\n' ∉ g.toList)
    ⟨fun ⟨h1, h2, h3, h4, h5⟩ => ⟨h1, h2, h3, h4, h5⟩,
      fun ⟨h1, h2, h3, h4, h5⟩ => ⟨h1, h2, h3, h4, h5⟩⟩

namespace Document

open Text Pattern

variable {f : FileSummary} {r : DirectoryRecord} {text : String} {front back s : List Char}

/-! ## The heading -/

/-- The line above the ranked files. -/
def rankingLine : String := "## " ++ keyFilesHeading

/-- No line of a text is the heading of the ranked files. -/
def LacksHeading (s : List Char) : Prop :=
  ∀ piece ∈ pieces '\n' s, trimBy isBlank piece ≠ rankingLine.toList

lemma lacksHeading_of_linesOf (h : ∀ line ∈ linesOf text, trim line ≠ "## Key Files") :
    LacksHeading text.toList := by
  intro piece hpiece heq
  -- an empty piece may be no line, but then it is not the heading either
  have hne : piece ≠ [] := by
    rintro rfl
    revert heq
    decide
  have hsought : ∀ line ∈ lines text.toList, trimBy isBlank line ≠ rankingLine.toList := by
    intro line hmem hheading
    refine h _ (List.mem_map_of_mem hmem) ?_
    rw [trim, String.toList_ofList, hheading, String.ofList_toList]
    decide
  rcases mem_lines_of_mem_pieces hpiece hne with hmem | hmem
  · exact hsought _ hmem (by rwa [trimBy_dropCarriageReturn])
  · exact hsought _ hmem heq

/-- A text of several lines lacks the heading when each part between two line ends does. -/
lemma LacksHeading.append_cons {a b : List Char} (ha : LacksHeading a) (hb : LacksHeading b) :
    LacksHeading (a ++ '\n' :: b) := by
  intro piece hpiece
  rw [pieces_append_cons] at hpiece
  exact (List.mem_append.mp hpiece).elim (ha piece) (hb piece)

/-! ## Lines below the heading -/

/-- What is read stands in the lines from the first heading of the ranked files to the next
heading. -/
lemma keyFiles_eq (htext : text.toList = front ++ '\n' :: (rankingLine.toList ++ '\n' :: back))
    (hfront : LacksHeading front) : keyFiles text =
      (((lines back).map String.ofList).takeWhile fun line => !beginsWith line "## ").filterMap
        fileOfLine? := by
  have hline : '\n' ∉ rankingLine.toList := by decide
  have habove : ∀ line ∈ ((pieces '\n' front).map dropCarriageReturn).map String.ofList,
      (trim line != rankingLine) = true := by
    intro line hmem
    obtain ⟨piece, hpiece, rfl⟩ := List.mem_map.mp hmem
    obtain ⟨raw, hraw, rfl⟩ := List.mem_map.mp hpiece
    rw [bne_iff_ne, trim, String.toList_ofList, trimBy_dropCarriageReturn]
    exact fun heq => hfront raw hraw (by simpa using congrArg String.toList heq)
  have hheading : ¬(trim (String.ofList (dropCarriageReturn rankingLine.toList)) != rankingLine) =
      true := by decide
  have hlines : linesOf text = ((pieces '\n' front).map dropCarriageReturn).map String.ofList ++
      String.ofList (dropCarriageReturn rankingLine.toList) :: (lines back).map String.ofList := by
    rw [linesOf, htext, lines_append_cons, lines_row hline, List.map_append, List.map_cons]
  unfold keyFiles
  dsimp only
  rw [← rankingLine, hlines, List.dropWhile_append_of_pos habove]
  rw [List.dropWhile_cons, if_neg hheading, List.drop_one, List.tail_cons]

/-! ## The lines of a file -/

lemma importance?_toDigits (i : UInt8) : importance? (Nat.toDigits 10 i.toNat) = some i := by
  have hdigits : (Nat.toDigits 10 i.toNat).all Char.isDigit = true := by
    rw [List.all_eq_true]
    exact fun c hc => Nat.isDigit_of_mem_toDigits (by decide) (by decide) hc
  unfold importance?
  rw [Nat.ofDigitChars_toDigits (by decide) (by decide),
    if_pos ⟨Nat.toDigits_ne_nil, hdigits, i.toNat_lt⟩, UInt8.ofNat_toNat]

/-- The line of a file, up to its description. -/
def fileLineStart (position : Nat) (f : FileSummary) : List Char :=
  Nat.toDigits 10 position ++ (". \x60".toList ++ (f.name.toList ++ ("\x60 (importance ".toList ++
    (Nat.toDigits 10 f.importance.toNat ++ ")".toList))))

/-- The line of a file is read back, whatever its description. -/
lemma fileOfLine?_fileLine (hf : f.IsLegible) (position : Nat) (rest : List Char) :
    fileOfLine? (.ofList (fileLineStart position f ++ rest)) = some (f.name, f.importance) := by
  have hname : f.name.toList ≠ [] :=
    fun hnil => hf.name_ne_empty (String.toList_inj.mp (by simpa using hnil))
  have hquote : ∀ c ∈ f.name.toList, (c != '\x60') = true := by
    intro c hc
    rw [bne_iff_ne]
    rintro rfl
    exact hf.name_unquoted hc
  obtain ⟨stop, hmatch⟩ : ∃ stop,
      fileLinePattern.matchAt? (.start (fileLineStart position f ++ rest)) =
        some ⟨.start (fileLineStart position f ++ rest), stop,
          [(2, Nat.toDigits 10 f.importance.toNat), (1, f.name.toList)]⟩ := by
    unfold matchAt? fileLinePattern Cursor.start fileLineStart
    simp only [attempt_append, List.append_assoc, attempt_group]
    rw [attempt_atLeastOne Nat.toDigits_ne_nil (fun c hc => isDigit_of_mem_toDigits hc)
        (by simp; decide), attempt_literal,
      attempt_atLeastOne hname hquote (by simp), textTo_append, attempt_literal,
      attempt_atLeastOne Nat.toDigits_ne_nil (fun c hc => isDigit_of_mem_toDigits hc)
        (by simp; decide), textTo_append, attempt_literal]
    exact ⟨_, rfl⟩
  unfold fileOfLine?
  rw [String.toList_ofList, hmatch]
  simp [Match.group, Match.group?, importance?_toDigits, List.lookup_cons]

/-- A line as it is read: without a carriage return at its end. -/
def asRead (line : String) : String := .ofList (dropCarriageReturn line.toList)

lemma fileLines_eq (position : Nat) (f : FileSummary) : fileLines position f =
    .ofList (fileLineStart position f ++ (" - ".toList ++ f.description.toList)) ::
      (fileLines position f).tail := by
  unfold fileLines
  rw [List.tail_cons]
  congr 1
  apply String.toList_inj.mp
  simp [fileLineStart, Nat.toList_repr]

/-- The line of the functions of a file is no line of a file, and no heading. -/
lemma mem_tail_fileLines {position : Nat} {line : String} (h : line ∈ (fileLines position f).tail) :
    ∃ more, line.toList = "   - Functions: ".toList ++ more := by
  unfold fileLines at h
  rw [List.tail_cons] at h
  split at h
  · cases h
  · obtain rfl := List.mem_singleton.mp h
    exact ⟨_, String.toList_append⟩

lemma beginsWith_heading_eq_false {line : String} (h : line.toList.head? ≠ some '#') :
    beginsWith line "## " = false := by
  have hheading : "## ".toList = ['#', '#', ' '] := by decide
  rw [beginsWith, hheading]
  cases hline : line.toList with
  | nil => rfl
  | cons c cs =>
    have hc : '#' ≠ c := by
      rintro rfl
      exact h (by rw [hline]; rfl)
    simp [List.isPrefixOf, hc]

lemma fileOfLine?_eq_none (more : List Char) : fileOfLine? (.ofList (' ' :: more)) = none := by
  have hblank : Text.isDigit ' ' = false := by decide
  have hmatch : fileLinePattern.matchAt? (.start (' ' :: more)) = none := by
    simp only [matchAt?, fileLinePattern, Cursor.start, atLeastOne, attempt_append, attempt, hblank,
      Bool.false_eq_true, if_false]
  unfold fileOfLine?
  rw [String.toList_ofList, hmatch]
  rfl

lemma asRead_fileLine (position : Nat) (f : FileSummary) :
    ∃ rest, asRead (.ofList (fileLineStart position f ++ (" - ".toList ++ f.description.toList))) =
      .ofList (fileLineStart position f ++ rest) := by
  have hne : " - ".toList ++ f.description.toList ≠ [] := by simp
  exact ⟨_, by rw [asRead, String.toList_ofList, dropCarriageReturn_append _ hne]⟩

lemma asRead_functions {position : Nat} {line : String}
    (h : line ∈ (fileLines position f).tail) : ∃ more, asRead line = .ofList (' ' :: more) := by
  obtain ⟨more, hmore⟩ := mem_tail_fileLines h
  have hsplit : line.toList = [' '] ++ ("  - Functions: ".toList ++ more) := by
    rw [hmore, ← List.append_assoc]
    congr 1
  have hne : "  - Functions: ".toList ++ more ≠ [] := by simp
  exact ⟨_, by rw [asRead, hsplit, dropCarriageReturn_append _ hne, List.singleton_append]⟩

/-- Of the lines of a file, its name and its importance are read. -/
lemma filterMap_fileLines (hf : f.IsLegible) (position : Nat) :
    ((fileLines position f).map asRead).filterMap fileOfLine? = [(f.name, f.importance)] := by
  have hfunctions : ((fileLines position f).tail.map asRead).filterMap fileOfLine? = [] := by
    rw [List.filterMap_eq_nil_iff]
    intro line hline
    obtain ⟨row, hrow, rfl⟩ := List.mem_map.mp hline
    obtain ⟨more, hmore⟩ := asRead_functions hrow
    rw [hmore, fileOfLine?_eq_none]
  obtain ⟨rest, hrest⟩ := asRead_fileLine position f
  rw [fileLines_eq, List.map_cons, List.filterMap_cons, hrest, fileOfLine?_fileLine hf, hfunctions]

/-- No line of a file is a heading. -/
lemma beginsWith_fileLines {position : Nat} {line : String}
    (h : line ∈ (fileLines position f).map asRead) : beginsWith line "## " = false := by
  obtain ⟨row, hrow, rfl⟩ := List.mem_map.mp h
  rw [fileLines_eq] at hrow
  rcases List.mem_cons.mp hrow with rfl | hrow
  · obtain ⟨rest, hrest⟩ := asRead_fileLine position f
    refine beginsWith_heading_eq_false fun hhead => ?_
    rw [hrest, String.toList_ofList, fileLineStart, List.append_assoc,
      List.head?_append_of_ne_nil _ Nat.toDigits_ne_nil] at hhead
    exact absurd (isDigit_of_mem_toDigits (List.mem_of_mem_head? hhead)) (by decide)
  · obtain ⟨more, hmore⟩ := asRead_functions hrow
    rw [hmore]
    exact beginsWith_heading_eq_false (by simp)

/-- The lines of a legible file are lines. -/
lemma newline_notMem_fileLines (hf : f.IsLegible) {position : Nat} {line : String}
    (h : line ∈ fileLines position f) : '\n' ∉ line.toList := by
  have hmarks : '\n' ∉ ". \x60".toList ∧ '\n' ∉ "\x60 (importance ".toList ∧ '\n' ∉ ")".toList ∧
      '\n' ∉ " - ".toList ∧ '\n' ∉ "   - Functions: ".toList ∧ '\n' ∉ ", ".toList := by
    decide
  rw [fileLines_eq] at h
  rcases List.mem_cons.mp h with rfl | h
  · simp only [String.toList_ofList, fileLineStart, List.mem_append, not_or]
    exact ⟨⟨newline_notMem_toDigits _, hmarks.1, hf.name_line, hmarks.2.1,
      newline_notMem_toDigits _, hmarks.2.2.1⟩, hmarks.2.2.2.1, hf.description_line⟩
  · unfold fileLines at h
    rw [List.tail_cons] at h
    split at h
    · cases h
    · obtain rfl := List.mem_singleton.mp h
      rw [String.toList_append, List.mem_append, not_or]
      refine ⟨hmarks.2.2.2.2.1, fun hmem => ?_⟩
      rcases mem_join hmem with hsep | ⟨g, hg, hmem⟩
      · exact hmarks.2.2.2.2.2 hsep
      · exact hf.functions_line g hg hmem

/-! ## The section of the ranked files -/

/-- The rows of a section: its lines, or one to say that there are none. -/
def sectionRows (absence : String) (lines : List String) : List String :=
  if lines.isEmpty then [absence] else lines

lemma toList_renderSection (heading absence : String) (lines : List String) :
    (renderSection heading absence lines).toList = ("## " ++ heading).toList ++ '\n' :: '\n' ::
      ((sectionRows absence lines).map String.toList).flatMap (· ++ ['\n']) := by
  unfold renderSection sectionRows
  cases lines with
  | nil => simp
  | cons line rest =>
    simp only [List.isEmpty_cons, Bool.false_eq_true, if_false, String.toList_append,
      toList_join_rows]
    simp

/-- The rows of ranked files. -/
def rankingRows (files : List FileSummary) : List String :=
  sectionRows "No files analyzed." ((files.zipIdx 1).flatMap fun (f, position) =>
    fileLines position f)

lemma mem_rankingRows {files : List FileSummary} {row : String} (h : row ∈ rankingRows files) :
    row = "No files analyzed." ∨ ∃ f ∈ files, ∃ position, row ∈ fileLines position f := by
  unfold rankingRows sectionRows at h
  split at h
  · exact .inl (List.mem_singleton.mp h)
  · obtain ⟨⟨f, position⟩, hmem, hrow⟩ := List.mem_flatMap.mp h
    exact .inr ⟨f, List.fst_mem_of_mem_zipIdx hmem, position, hrow⟩

/-- Of the rows of ranked files, their names and importances are read. -/
lemma filterMap_rankingRows {files : List FileSummary} (h : ∀ f ∈ files, f.IsLegible) :
    ((rankingRows files).map asRead).filterMap fileOfLine? =
      files.map fun f => (f.name, f.importance) := by
  have hlines : (((files.zipIdx 1).flatMap fun (f, position) => fileLines position f).map
      asRead).filterMap fileOfLine? = files.map fun f => (f.name, f.importance) := by
    rw [List.map_flatMap, List.filterMap_flatMap]
    have hone : ∀ x ∈ files.zipIdx 1, ((fileLines x.2 x.1).map asRead).filterMap fileOfLine? =
        [(x.1.name, x.1.importance)] :=
      fun x hx => filterMap_fileLines (h x.1 (List.fst_mem_of_mem_zipIdx hx)) x.2
    rw [List.flatMap_congr hone, ← List.map_eq_flatMap]
    conv_rhs => rw [← List.zipIdx_map_fst 1 files, List.map_map]
    rfl
  unfold rankingRows sectionRows
  split
  · next hempty =>
    -- the row that says that there are none is no line of a file
    rw [List.isEmpty_iff.mp hempty] at hlines
    rw [← hlines]
    decide
  · exact hlines

/-! ## The whole document -/

/-- What stands above the heading of the ranked files, up to the line end before it. -/
def frontOf (r : DirectoryRecord) : List Char :=
  "# ".toList ++ r.path.displayName.toList ++ '\n' :: ([] ++ '\n' :: ("## Purpose".toList ++ '\n' ::
    ([] ++ '\n' :: (r.purpose.toList ++ '\n' :: ([] ++ '\n' :: ("## Architecture".toList ++ '\n' ::
      ([] ++ '\n' :: (r.architecture.toList ++ '\n' :: []))))))))

lemma toList_render (r : DirectoryRecord) : ∃ more, (render r).toList =
    frontOf r ++ '\n' :: (rankingLine.toList ++ '\n' :: ([] ++ '\n' ::
      (((rankingRows r.keyFiles).map String.toList).flatMap (· ++ ['\n']) ++ ([] ++ '\n' ::
        ("## Recent Changes".toList ++ '\n' :: more))))) := by
  -- what is read ends at the next heading, so the sections below it are not taken apart
  refine ⟨'\n' :: (((sectionRows "No recent changes recorded."
      (r.recentChanges.map changeLine)).map String.toList).flatMap (· ++ ['\n']) ++ '\n' ::
    ((renderSection "Improvement Suggestions" "No suggestions."
      (r.improvements.map ("- " ++ ·))).toList ++ '\n' ::
    (renderSection "Dependencies" "No dependencies detected."
      (r.dependencies.map dependencyLine)).toList)), ?_⟩
  have hpurpose : "\n\n## Purpose\n\n".toList =
      '\n' :: '\n' :: ("## Purpose".toList ++ ['\n', '\n']) := by decide
  have harchitecture : "\n\n## Architecture\n\n".toList =
      '\n' :: '\n' :: ("## Architecture".toList ++ ['\n', '\n']) := by decide
  have hends : "\n\n".toList = ['\n', '\n'] := by decide
  have hend : "\n".toList = ['\n'] := by decide
  have hnext : ("## " ++ "Recent Changes").toList = "## Recent Changes".toList := by decide
  have hranked : (renderSection keyFilesHeading "No files analyzed."
      ((r.keyFiles.zipIdx 1).flatMap fun (f, position) => fileLines position f)).toList =
        rankingLine.toList ++ '\n' :: '\n' ::
          ((rankingRows r.keyFiles).map String.toList).flatMap (· ++ ['\n']) :=
    toList_renderSection ..
  unfold render
  simp only [String.toList_append]
  rw [hpurpose, harchitecture, hends, hend, hranked, toList_renderSection "Recent Changes", hnext]
  unfold frontOf
  simp only [List.append_assoc, List.cons_append, List.nil_append]

/-- Nothing above the heading of the ranked files looks like it. -/
lemma lacksHeading_frontOf (hname : '\n' ∉ r.path.displayName.toList)
    (hpurpose : LacksHeading r.purpose.toList) (harchitecture : LacksHeading r.architecture.toList) :
    LacksHeading (frontOf r) := by
  have hempty : LacksHeading [] := by unfold LacksHeading; decide
  have hsection : LacksHeading "## Purpose".toList ∧ LacksHeading "## Architecture".toList := by
    unfold LacksHeading
    decide
  have htitle : LacksHeading ("# ".toList ++ r.path.displayName.toList) := by
    have hline : '\n' ∉ "# ".toList ++ r.path.displayName.toList := by
      rw [List.mem_append, not_or]
      exact ⟨by decide, hname⟩
    intro piece hpiece heq
    rw [pieces_of_notMem hline, List.mem_singleton] at hpiece
    have hhash : "# ".toList = ['#', ' '] := by decide
    have hheading : rankingLine.toList = '#' :: '#' :: " Key Files".toList := by decide
    rw [hpiece, hhash, List.cons_append, List.cons_append, List.nil_append,
      trimBy_cons (by decide), hheading, List.cons.injEq] at heq
    -- after the first sign comes a blank, and in the heading another sign
    have hprefix := trimEndBy_isPrefix (p := isBlank) (' ' :: r.path.displayName.toList)
    rw [heq.2, List.cons_prefix_cons] at hprefix
    exact absurd hprefix.1 (by decide)
  exact htitle.append_cons (hempty.append_cons (hsection.1.append_cons (hempty.append_cons
    (hpurpose.append_cons (hempty.append_cons (hsection.2.append_cons (hempty.append_cons
      (harchitecture.append_cons hempty))))))))

/-- The ranking of a record is read back from its document. -/
theorem keyFiles_of_render (hname : '\n' ∉ r.path.displayName.toList)
    (hpurpose : LacksHeading r.purpose.toList) (harchitecture : LacksHeading r.architecture.toList)
    (hfiles : ∀ f ∈ r.keyFiles, f.IsLegible) :
    keyFiles (render r) = r.keyFiles.map fun f => (f.name, f.importance) := by
  obtain ⟨more, hmore⟩ := toList_render r
  rw [keyFiles_eq hmore (lacksHeading_frontOf hname hpurpose harchitecture)]
  have hrows : ∀ row ∈ (rankingRows r.keyFiles).map String.toList, '\n' ∉ row := by
    intro row hrow
    obtain ⟨line, hline, rfl⟩ := List.mem_map.mp hrow
    rcases mem_rankingRows hline with rfl | ⟨f, hf, position, hline⟩
    · decide
    · exact newline_notMem_fileLines (hfiles f hf) hline
  have hnext : '\n' ∉ "## Recent Changes".toList := by decide
  have hlines : (lines ([] ++ '\n' :: (((rankingRows r.keyFiles).map String.toList).flatMap
      (· ++ ['\n']) ++ ([] ++ '\n' :: ("## Recent Changes".toList ++ '\n' :: more))))).map
        String.ofList = "" :: ((rankingRows r.keyFiles).map asRead ++
          "" :: asRead "## Recent Changes" :: (lines more).map String.ofList) := by
    rw [lines_row (by simp), lines_rows hrows, lines_row (by simp), lines_row hnext]
    simp only [List.map_cons, List.map_append, List.map_map]
    rfl
  have hkept : ∀ line ∈ (rankingRows r.keyFiles).map asRead,
      (!beginsWith line "## ") = true := by
    intro line hline
    obtain ⟨row, hrow, rfl⟩ := List.mem_map.mp hline
    rw [Bool.not_eq_true']
    rcases mem_rankingRows hrow with rfl | ⟨f, -, position, hrow⟩
    · decide
    · exact beginsWith_fileLines (List.mem_map_of_mem hrow)
  have hempty : (!beginsWith "" "## ") = true ∧ fileOfLine? "" = none := by decide
  have hstop : ¬(!beginsWith (asRead "## Recent Changes") "## ") = true := by decide
  rw [hlines, List.takeWhile_cons, if_pos hempty.1, List.takeWhile_append_of_pos hkept,
    List.takeWhile_cons, if_pos hempty.1, List.takeWhile_cons, if_neg hstop,
    List.filterMap_cons_none hempty.2, List.filterMap_append, filterMap_rankingRows hfiles,
    List.filterMap_cons_none hempty.2, List.filterMap_nil, List.append_nil]

/-- The ranking of a record is read back from its document, whatever stands below it. Above it no
line may be its heading, and the lines of the files have to be lines, with names that end where the
quotes do. -/
theorem keyFiles_render (hname : '\n' ∉ r.path.displayName.toList)
    (hpurpose : ∀ line ∈ linesOf r.purpose, trim line ≠ "## Key Files")
    (harchitecture : ∀ line ∈ linesOf r.architecture, trim line ≠ "## Key Files")
    (hfiles : ∀ f ∈ r.keyFiles, f.IsLegible) :
    keyFiles (render r) = r.keyFiles.map fun f => (f.name, f.importance) :=
  keyFiles_of_render hname (lacksHeading_of_linesOf hpurpose) (lacksHeading_of_linesOf harchitecture)
    hfiles

/-- A record with texts that look like a ranking, above the real one and below it. -/
def imitatingRecord : DirectoryRecord where
  path := ⟨"/p/src"⟩
  purpose := "See ## Key Files\n1. \x60x.ts\x60 (importance 3) - above\r\n## Keys"
  architecture := "## Key Files below"
  keyFiles := [⟨"index.ts", "Main (importance 9)\r", 10, ["run(a, b)", "2. \x60y.ts\x60"], 0⟩,
    ⟨"a b.ts", "", 0, [], 0⟩]
  recentChanges := [⟨"abc1234", "2024-05-01", "\n## Key Files\n1. \x60z.ts\x60 (importance 1)", "", []⟩]
  improvements := ["\n## Key Files\n"]
  dependencies := []

theorem keyFiles_render_imitatingRecord : '\n' ∉ imitatingRecord.path.displayName.toList ∧
    (∀ line ∈ linesOf imitatingRecord.purpose, trim line ≠ "## Key Files") ∧
    (∀ line ∈ linesOf imitatingRecord.architecture, trim line ≠ "## Key Files") ∧
    (∀ f ∈ imitatingRecord.keyFiles, f.IsLegible) ∧
    keyFiles (render imitatingRecord) = [("index.ts", 10), ("a b.ts", 0)] := by
  have hname : '\n' ∉ imitatingRecord.path.displayName.toList := by decide
  have hpurpose : ∀ line ∈ linesOf imitatingRecord.purpose, trim line ≠ "## Key Files" := by
    decide
  have harchitecture : ∀ line ∈ linesOf imitatingRecord.architecture,
      trim line ≠ "## Key Files" := by decide
  have hfiles : ∀ f ∈ imitatingRecord.keyFiles, f.IsLegible := by decide
  exact ⟨hname, hpurpose, harchitecture, hfiles,
    keyFiles_render hname hpurpose harchitecture hfiles⟩

end Document

end DirectoryNotes
