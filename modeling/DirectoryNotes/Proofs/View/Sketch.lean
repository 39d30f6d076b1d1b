import DirectoryNotes.View.Tree
import Mathlib.Data.List.TakeWhile
import Mathlib.Tactic.Lemma

/-!
# Sketches

The lines of a drawing stand for entries that lie in one another. A sketch is what they stand for:

* `Sketch`, `Sketch.lines`, `Sketch.entries`: the entries in one another, the lines that draw them,
  and the names that lead to each;
* `Sketch.lines_inj`: two sketches have the same lines only if they are the same, whatever their
  names begin with;
* `Draws`: what is drawn of entries, with one rule for each thing that can happen to an entry.
  `exists_draws` says that a drawing goes by these rules and adds the lines of a sketch.
-/

namespace DirectoryNotes.Drawing

/-- Entries one after the other: the name of each, whether it is a directory, and what is drawn of
the entries in it. -/
inductive Sketch where
  | nil
  | cons (name : String) (isDirectory : Bool) (inner rest : Sketch)

variable {t : FileTree} {depth : Nat} {name margin : String} {isDirectory isLast : Bool}

namespace Sketch

/-- Whether there is no entry. -/
def isNil : Sketch → Bool
  | nil => true
  | cons .. => false

/-- The lines of entries that are drawn with the given margin. -/
def lines : String → Sketch → List String
  | _, nil => []
  | margin, cons name isDirectory inner rest =>
    line margin rest.isNil name isDirectory ::
      (inner.lines (innerMargin margin rest.isNil) ++ rest.lines margin)

/-- The entries in the order of their lines: the names that lead to each, and whether it is a
directory. -/
def entries : Sketch → List (List String × Bool)
  | nil => []
  | cons name isDirectory inner rest =>
    ([name], isDirectory) ::
      (inner.entries.map (fun entry => (name :: entry.1, entry.2)) ++ rest.entries)

/-- No name has a slash in it. -/
def IsSlashFree : Sketch → Prop
  | nil => True
  | cons name _ inner rest => '/' ∉ name.toList ∧ inner.IsSlashFree ∧ rest.IsSlashFree

end Sketch

/-! ## Reading a line -/

lemma toList_line : (line margin isLast name isDirectory).toList =
    margin.toList ++ ((branch isLast).toList ++ (label name isDirectory).toList) := by
  simp [line]

lemma newline_notMem_branch (isLast : Bool) : '\n' ∉ (branch isLast).toList := by
  cases isLast <;> decide

lemma newline_notMem_stem (isLast : Bool) : '\n' ∉ (stem isLast).toList := by
  cases isLast <;> decide

lemma newline_notMem_label (h : '\n' ∉ name.toList) (isDirectory : Bool) :
    '\n' ∉ (label name isDirectory).toList := by
  cases isDirectory <;> simp [label, h]

/-- The slash at the end tells a directory from a file. -/
lemma label_inj {other : String} {isDirectory' : Bool} (hname : '/' ∉ name.toList)
    (hother : '/' ∉ other.toList) (h : label name isDirectory = label other isDirectory') :
    name = other ∧ isDirectory = isDirectory' := by
  have hchars := congrArg String.toList h
  cases isDirectory <;> cases isDirectory' <;>
    simp only [label, String.toList_append, Bool.false_eq_true, if_true, if_false] at hchars
  · simpa [String.toList_inj] using hchars
  · have hslash : '/' ∈ name.toList := by simpa using congrArg ('/' ∈ ·) hchars
    exact absurd hslash hname
  · have hslash : '/' ∈ other.toList := by simpa using (congrArg ('/' ∈ ·) hchars).symm
    exact absurd hslash hother
  · simpa [String.toList_inj] using hchars

/-- Behind the margin a line tells whether it is the last one, the name, and the kind. -/
lemma line_inj {other : String} {isLast' isDirectory' : Bool} (hname : '/' ∉ name.toList)
    (hother : '/' ∉ other.toList)
    (h : line margin isLast name isDirectory = line margin isLast' other isDirectory') :
    isLast = isLast' ∧ name = other ∧ isDirectory = isDirectory' := by
  have hchars := congrArg String.toList h
  rw [toList_line, toList_line, List.append_right_inj] at hchars
  have hbranch : isLast = isLast' := by
    cases isLast <;> cases isLast' <;> simp [branch] at hchars ⊢
  subst hbranch
  rw [List.append_right_inj, String.toList_inj] at hchars
  exact ⟨rfl, label_inj hname hother hchars⟩

/-! ## Reading lines -/

lemma beginsWith_iff {s start : String} : Text.beginsWith s start = true ↔
    start.toList <+: s.toList := by
  rw [Text.beginsWith, List.isPrefixOf_iff_prefix]

/-- What is drawn below an entry stands behind the margin. -/
lemma beginsWith_of_mem_lines {f : Sketch} {s : String} (h : s ∈ f.lines margin) :
    Text.beginsWith s margin = true := by
  rw [beginsWith_iff]
  induction f generalizing margin with
  | nil => cases h
  | cons name isDirectory inner rest ihinner ihrest =>
    rw [Sketch.lines, List.mem_cons, List.mem_append] at h
    rcases h with rfl | h | h
    · rw [toList_line]
      exact List.prefix_append _ _
    · refine List.IsPrefix.trans ?_ (ihinner h)
      rw [innerMargin, String.toList_append]
      exact List.prefix_append _ _
    · exact ihrest h

/-- The line of the next entry is none of those below the entry before it. -/
lemma beginsWith_line_innerMargin (isLast' : Bool) :
    Text.beginsWith (line margin isLast name isDirectory) (innerMargin margin isLast') = false := by
  rw [Bool.eq_false_iff, ne_eq, beginsWith_iff, toList_line, innerMargin, String.toList_append,
    List.prefix_append_right_inj]
  cases isLast <;> cases isLast' <;> simp [branch, stem]

/-- The lines below an entry reach up to the first that is not behind their margin. -/
lemma takeWhile_lines (inner rest : Sketch) (isLast : Bool) :
    (inner.lines (innerMargin margin isLast) ++ rest.lines margin).takeWhile
        (Text.beginsWith · (innerMargin margin isLast)) = inner.lines (innerMargin margin isLast) := by
  rw [List.takeWhile_append_of_pos fun s hs => beginsWith_of_mem_lines hs]
  cases rest with
  | nil => simp [Sketch.lines]
  | cons name isDirectory inner' rest' =>
    rw [Sketch.lines, List.takeWhile_cons_of_neg, List.append_nil]
    simp [beginsWith_line_innerMargin]

/-- A sketch can be read back from its lines. -/
theorem Sketch.lines_inj {f g : Sketch} (hf : f.IsSlashFree) (hg : g.IsSlashFree)
    (h : f.lines margin = g.lines margin) : f = g := by
  induction f generalizing g margin with
  | nil =>
    cases g with
    | nil => rfl
    | cons => cases h
  | cons name isDirectory inner rest ihinner ihrest =>
    cases g with
    | nil => cases h
    | cons name' isDirectory' inner' rest' =>
      rw [Sketch.lines, Sketch.lines, List.cons.injEq] at h
      obtain ⟨hline, hbelow⟩ := h
      obtain ⟨hlast, rfl, rfl⟩ := line_inj hf.1 hg.1 hline
      rw [← hlast] at hbelow
      -- the margin of the entry tells which of the lines are below it
      have hsplit := congrArg
        (List.takeWhile (Text.beginsWith · (innerMargin margin rest.isNil))) hbelow
      rw [takeWhile_lines, takeWhile_lines] at hsplit
      rw [hsplit, List.append_right_inj] at hbelow
      rw [ihinner hf.2.1 hg.2.1 hsplit, ihrest hf.2.2 hg.2.2 hbelow]

/-! ## Drawing a sketch -/

/-- What is drawn of entries, `depth` levels below each, and the directories that are marked before
and after. -/
inductive Draws (t : FileTree) :
    Nat → List Item → List (List PathPart) → Sketch → List (List PathPart) → Prop
  | nil (depth : Nat) (seen : List (List PathPart)) : Draws t depth [] seen .nil seen
  /-- An entry of which nothing more is drawn than its line. -/
  | pass {depth : Nat} {item : Item} {remaining : List Item} {seen after : List (List PathPart)}
      {rest : Sketch} :
      ¬(item.isDirectory = true ∧ depth ≠ 0 ∧ t.mark item.path ∉ seen) →
      Draws t depth remaining seen rest after →
      Draws t depth (item :: remaining) seen (.cons item.name item.isDirectory .nil rest) after
  /-- A directory that is drawn with its entries. -/
  | enter {depth : Nat} {item : Item} {remaining : List Item}
      {seen between after : List (List PathPart)} {inner rest : Sketch} :
      item.isDirectory = true → t.mark item.path ∉ seen →
      Draws t depth (items t item.path) (t.mark item.path :: seen) inner between →
      Draws t (depth + 1) remaining between rest after →
      Draws t (depth + 1) (item :: remaining) seen
        (.cons item.name item.isDirectory inner rest) after

lemma Draws.isNil_eq {remaining : List Item} {seen after : List (List PathPart)} {f : Sketch}
    (h : Draws t depth remaining seen f after) : f.isNil = remaining.isEmpty := by
  cases h <;> rfl

/-- Drawing entries adds the lines of a sketch. -/
theorem exists_draws (t : FileTree) (depth : Nat) (remaining : List Item)
    (seen : List (List PathPart)) : ∃ f after, Draws t depth remaining seen f after ∧
      ∀ margin drawn, each t depth margin remaining (drawn, seen) =
        (drawn ++ f.lines margin, after) := by
  induction depth generalizing remaining seen with
  | zero =>
    induction remaining with
    | nil => exact ⟨.nil, seen, .nil 0 seen, by simp [each, Sketch.lines]⟩
    | cons item remaining ih =>
      obtain ⟨rest, after, hrest, heach⟩ := ih
      refine ⟨_, after, .pass (by simp) hrest, ?_⟩
      intro margin drawn
      rw [each]
      simp [heach, Sketch.lines, hrest.isNil_eq]
  | succ depth ihdepth =>
    induction remaining generalizing seen with
    | nil => exact ⟨.nil, seen, .nil (depth + 1) seen, by simp [each, Sketch.lines]⟩
    | cons item remaining ih =>
      by_cases henter : item.isDirectory = true ∧ depth + 1 ≠ 0 ∧ t.mark item.path ∉ seen
      · obtain ⟨inner, between, hinner, hbelow⟩ :=
          ihdepth (items t item.path) (t.mark item.path :: seen)
        obtain ⟨rest, after, hrest, heach⟩ := ih between
        refine ⟨_, after, .enter henter.1 henter.2.2 hinner hrest, ?_⟩
        intro margin drawn
        rw [each]
        dsimp only
        rw [if_pos henter, below, hbelow, heach, Sketch.lines, hrest.isNil_eq]
        simp
      · obtain ⟨rest, after, hrest, heach⟩ := ih seen
        refine ⟨_, after, .pass henter hrest, ?_⟩
        intro margin drawn
        rw [each]
        dsimp only
        rw [if_neg henter, heach, Sketch.lines, hrest.isNil_eq]
        simp [Sketch.lines]

/-- The directories that are marked before anything is drawn. -/
def firstMarks (t : FileTree) (root : Path) : List (List PathPart) :=
  (t.realPath root).toOption.toList.map (·.parts)

/-- A drawing that goes down at least one level is the line of the root and the lines of a sketch. -/
theorem exists_drawTree_eq (t : FileTree) (root : Path) (depth : Nat) :
    ∃ f after, Draws t depth (items t root) (firstMarks t root) f after ∧
      drawTree t root (depth + 1) = (root.displayName ++ "/") :: f.lines "" := by
  obtain ⟨f, after, hdraws, heach⟩ := exists_draws t depth (items t root) (firstMarks t root)
  refine ⟨f, after, hdraws, ?_⟩
  have hroot : drawTree t root (depth + 1) =
      (below t (depth + 1) "" root ([root.displayName ++ "/"], firstMarks t root)).1 := rfl
  rw [hroot, below, heach]
  rfl

lemma drawTree_zero (t : FileTree) (root : Path) :
    drawTree t root 0 = [root.displayName ++ "/"] := by
  have hroot : drawTree t root 0 =
      (below t 0 "" root ([root.displayName ++ "/"], firstMarks t root)).1 := rfl
  rw [hroot, below]

end DirectoryNotes.Drawing
