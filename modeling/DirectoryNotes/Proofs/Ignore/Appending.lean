import DirectoryNotes.Proofs.Walk
import Mathlib.Data.List.Perm.Subperm

/-!
# One more line in an ignore list

A line that is put at the end of an ignore list takes precedence over those before it, on every level
from the path up to the root. It decides, or it leaves the decision to them:

* `ofPatterns_append_singleton`: what the list with one more line is read as;
* `nearestDecision?_append_singleton`: the added rule decides on a path, or nothing changes;
* `walk_sublist`: of two filters, one of which includes all that the other does, one lists all
  directories that the other does;
* `appended_line_law`: an ordinary line only takes away, a negated one only adds, and a blank one or a
  comment does nothing.
-/

namespace DirectoryNotes

namespace IgnoreFilter

variable {rules : List IgnoreRule} {rule : IgnoreRule} {filter filter' : IgnoreFilter}
  {root path : Path} {line text : String} {lines : List String} {added : List IgnoreRule}

/-! ## Reading a list -/

/-- A line that can stand in an ignore list, whatever the root. -/
def IsValidLine (line : String) : Prop := ∃ filter, ofPatterns ⟨"/"⟩ [line] = .ok filter

instance (line : String) : Decidable (IsValidLine line) :=
  decidable_of_iff ((ofPatterns ⟨"/"⟩ [line]).toBool = true) <| by
    unfold IsValidLine
    cases ofPatterns ⟨"/"⟩ [line] <;> simp [Except.toBool]

/-- Globs are taken unless one of those that need an expression nests too deep. -/
lemma depthError?_eq_none_iff {globs : List Glob} :
    depthError? globs = none ↔ ∀ g ∈ globs, g.isPlain = false → g.isTooDeep = false := by
  unfold depthError?
  split
  · next g hg =>
    have hmem := List.mem_of_find?_eq_some hg
    have hdeep := List.find?_some (p := fun g : Glob => g.isExtended && g.isTooDeep) hg
    simp only [Glob.isExtended, Bool.and_eq_true, Bool.not_eq_true'] at hdeep
    refine iff_of_false (by simp) fun h => ?_
    rw [h g hmem hdeep.1.1] at hdeep
    exact absurd hdeep.2 (by decide)
  · next hnone =>
    rw [Option.map_eq_none_iff, List.findIdx?_eq_none_iff]
    rw [List.find?_eq_none] at hnone
    constructor
    · intro hgeneral g hg hplain
      -- a glob that is not plain ends in an extension or is a general one
      cases hends : Glob.endInExtension g.parts.reverse with
      | true =>
        have hextended := hnone g hg
        simpa [Glob.isExtended, hplain, hends] using hextended
      | false =>
        exact hgeneral g (List.mem_filter.mpr ⟨hg, by simp [Glob.isGeneral, hplain, hends]⟩)
    · intro h g hg
      obtain ⟨hmem, hgeneral⟩ := List.mem_filter.mp hg
      refine h g hmem ?_
      simp only [Glob.isGeneral, Bool.and_eq_true, Bool.not_eq_true'] at hgeneral
      exact hgeneral.1

lemma ofPatterns_eq_ok_iff : ofPatterns root lines = .ok filter ↔
    ∃ read, lines.mapM rulesOf = .ok read ∧
      (∀ rule ∈ read.flatten, rule.glob.isPlain = false → rule.glob.isTooDeep = false) ∧
      filter = ⟨root, read.flatten⟩ := by
  unfold ofPatterns
  cases hread : lines.mapM rulesOf with
  | error reason => simp [bind, Except.bind]
  | ok read =>
    have hdepth := @depthError?_eq_none_iff (read.flatten.map (·.glob))
    simp only [List.forall_mem_map] at hdepth
    simp only [bind, Except.bind, Except.ok.injEq, exists_eq_left', ← hdepth]
    cases depthError? (read.flatten.map (·.glob)) with
    | some reason => simp
    | none => simp [pure, Except.pure, eq_comm]

/-- A line is valid if it is read, and its glob does not nest too deep. -/
lemma isValidLine_iff : IsValidLine line ↔ ∃ read, rulesOf line = .ok read ∧
    ∀ rule ∈ read, rule.glob.isPlain = false → rule.glob.isTooDeep = false := by
  have hone : [line].mapM rulesOf = (rulesOf line).map fun read => [read] := by
    rw [List.mapM_cons, List.mapM_nil]
    cases rulesOf line <;> rfl
  simp only [IsValidLine, ofPatterns_eq_ok_iff, hone]
  cases rulesOf line with
  | error reason => simp [Except.map]
  | ok read => simp [Except.map]

/-- A list of valid lines is read line by line. -/
lemma exists_mapM_rulesOf (h : ∀ line ∈ lines, IsValidLine line) :
    ∃ read, lines.mapM rulesOf = .ok read ∧
      ∀ rule ∈ read.flatten, rule.glob.isPlain = false → rule.glob.isTooDeep = false := by
  induction lines with
  | nil => exact ⟨[], rfl, by simp⟩
  | cons line rest ih =>
    obtain ⟨first, hfirst, hflat⟩ := isValidLine_iff.mp (h line List.mem_cons_self)
    obtain ⟨read, hread, hflats⟩ := ih fun l hl => h l (List.mem_cons_of_mem _ hl)
    refine ⟨first :: read, ?_, ?_⟩
    · rw [List.mapM_cons, hfirst, hread]
      rfl
    · intro rule hrule
      rw [List.flatten_cons] at hrule
      exact (List.mem_append.mp hrule).elim (hflat rule) (hflats rule)

/-- With one more line, the filter of a list has the rules of that line at the end. -/
lemma ofPatterns_append_singleton (hlines : ∀ line ∈ lines, IsValidLine line)
    (hline : IsValidLine line) (root : Path) :
    ∃ rules added, ofPatterns root lines = .ok ⟨root, rules⟩ ∧ rulesOf line = .ok added ∧
      ofPatterns root (lines ++ [line]) = .ok ⟨root, rules ++ added⟩ := by
  obtain ⟨read, hread, hflat⟩ := exists_mapM_rulesOf hlines
  obtain ⟨added, hadded, hflatAdded⟩ := isValidLine_iff.mp hline
  have happended : (lines ++ [line]).mapM rulesOf = .ok (read ++ [added]) := by
    rw [List.mapM_append, hread, List.mapM_cons, hadded]
    rfl
  refine ⟨read.flatten, added, ofPatterns_eq_ok_iff.mpr ⟨read, hread, hflat, rfl⟩, hadded,
    ofPatterns_eq_ok_iff.mpr ⟨_, happended, ?_, ?_⟩⟩
  · intro rule hrule
    rw [List.flatten_concat] at hrule
    exact (List.mem_append.mp hrule).elim (hflat rule) (hflatAdded rule)
  · rw [List.flatten_concat]

lemma negated_takeFront (chars : List Char) :
    (IgnoreRule.takeFront chars).negated = (chars.head? == some '!') := by
  unfold IgnoreRule.takeFront
  split
  case h_6 hmark _ =>
    -- a text that begins with the mark is one of the cases above
    cases chars with
    | nil => rfl
    | cons c rest =>
      have hc : c ≠ '!' := fun heq => hmark rest (heq ▸ rfl)
      simp [hc]
  all_goals rfl

/-- The rule of a line is negated if the line begins with the mark for it. -/
lemma negated_of_parse (h : IgnoreRule.parse text = .ok rule) :
    rule.negated = (text.toList.head? == some '!') := by
  rw [← negated_takeFront]
  have hend : (IgnoreRule.takeEnd (IgnoreRule.takeFront text.toList)).negated =
      (IgnoreRule.takeFront text.toList).negated := by
    unfold IgnoreRule.takeEnd
    split
    · rfl
    · rfl
  unfold IgnoreRule.parse at h
  dsimp only [bind] at h
  cases hglob : Glob.parse (IgnoreRule.anchored
      (IgnoreRule.takeEnd (IgnoreRule.takeFront text.toList))) with
  | error reason =>
    rw [hglob] at h
    cases h
  | ok glob =>
    rw [hglob] at h
    rw [← Except.ok.inj h]
    exact hend

/-- What a line adds to the rules, by the first character after the blanks in front. -/
lemma rulesOf_eq_ok (h : rulesOf line = .ok added) :
    if Text.trim line = "" ∨ (Text.trim line).toList.head? = some '#' then added = []
    else ∃ rule, added = [rule] ∧
      rule.negated = ((Text.trim line).toList.head? == some '!') := by
  have hidle : IgnoreRule.isIdle (Text.trim line) = true ↔
      Text.trim line = "" ∨ (Text.trim line).toList.head? = some '#' := by
    simp [IgnoreRule.isIdle]
  unfold rulesOf at h
  dsimp only at h
  split at h
  · next hline =>
    rw [if_pos (hidle.mp hline)]
    exact (Except.ok.inj h).symm
  · next hline =>
    rw [if_neg (mt hidle.mpr hline)]
    split at h
    · next rule hrule => exact ⟨rule, (Except.ok.inj h).symm, negated_of_parse hrule⟩
    · cases h

/-! ## Decisions -/

/-- Of the last rule that speaks of a path and one more, the one more comes first. -/
lemma decision?_append_singleton (rules : List IgnoreRule) (rule : IgnoreRule) (text : String)
    (isDirectory : Bool) :
    decision? (rules ++ [rule]) text isDirectory =
      if rule.speaksOf text isDirectory then some rule.negated
      else decision? rules text isDirectory := by
  unfold decision?
  rw [List.reverse_append, List.reverse_singleton, List.singleton_append, List.find?_cons]
  cases rule.speaksOf text isDirectory with
  | true => rfl
  | false => rfl

/-- A search in which some finds are replaced by one value finds this value, or what it found
before. -/
lemma findSome?_eq_or {α β : Type} {f g : α → Option β} {b : β} (xs : List α)
    (h : ∀ x, g x = some b ∨ g x = f x) :
    xs.findSome? g = some b ∨ xs.findSome? g = xs.findSome? f := by
  induction xs with
  | nil => exact .inr rfl
  | cons x rest ih =>
    rw [List.findSome?_cons, List.findSome?_cons]
    rcases h x with hx | hx
    · rw [hx]
      exact .inl rfl
    · rw [hx]
      cases f x with
      | some c => exact .inr rfl
      | none => exact ih

/-- On whatever level a decision is made: the added rule makes it, or it is the one that was made
before. -/
lemma nearestDecision?_append_singleton (rules : List IgnoreRule) (rule : IgnoreRule) (path : Path)
    (isDirectory : Bool) :
    nearestDecision? (rules ++ [rule]) path isDirectory = some rule.negated ∨
      nearestDecision? (rules ++ [rule]) path isDirectory =
        nearestDecision? rules path isDirectory := by
  have hlevel : ∀ text kind, decision? (rules ++ [rule]) text kind = some rule.negated ∨
      decision? (rules ++ [rule]) text kind = decision? rules text kind := by
    intro text kind
    rw [decision?_append_singleton]
    split
    · exact .inl rfl
    · exact .inr rfl
  unfold nearestDecision?
  rcases hlevel path.text isDirectory with hpath | hpath
  · rw [hpath]
    exact .inl rfl
  · rw [hpath]
    cases decision? rules path.text isDirectory with
    | some included => exact .inr rfl
    | none => exact findSome?_eq_or _ fun above => hlevel above.text true

/-- The first filter includes all that the second one does, however a path is given. -/
structure IncludesAllOf (filter filter' : IgnoreFilter) : Prop where
  includes : ∀ path isDirectory,
    filter'.includes path isDirectory = true → filter.includes path isDirectory = true
  includesPath : ∀ path isDirectory,
    filter'.includesPath path isDirectory = true → filter.includesPath path isDirectory = true

lemma includesAllOf_of_includes (hroot : filter.root = filter'.root)
    (h : ∀ path isDirectory,
      filter'.includes path isDirectory = true → filter.includes path isDirectory = true) :
    filter.IncludesAllOf filter' where
  includes := h
  includesPath path isDirectory hpath := by
    unfold includesPath at hpath ⊢
    rw [hroot]
    split
    · next rest hrest =>
      rw [hrest] at hpath
      exact h rest isDirectory hpath
    · next hrest =>
      rw [hrest] at hpath
      dsimp only at hpath
      split
      · rfl
      · next hrelative =>
        rw [if_neg hrelative] at hpath
        exact h path isDirectory hpath

/-- One more rule changes what is included to what it says, or not at all. -/
lemma includes_append_singleton (root : Path) (rules : List IgnoreRule) (rule : IgnoreRule)
    (path : Path) (isDirectory : Bool) :
    includes ⟨root, rules ++ [rule]⟩ path isDirectory = rule.negated ∨
      includes ⟨root, rules ++ [rule]⟩ path isDirectory = includes ⟨root, rules⟩ path isDirectory := by
  unfold includes
  dsimp only
  split
  · exact .inr rfl
  · rcases nearestDecision?_append_singleton rules rule (withoutRoot root (normalized path))
      isDirectory with hdecision | hdecision
    · rw [hdecision]
      exact .inl rfl
    · rw [hdecision]
      exact .inr rfl

/-- A rule that leaves out takes away only. -/
lemma includesAllOf_append_of_not_negated (h : rule.negated = false) (root : Path)
    (rules : List IgnoreRule) :
    IncludesAllOf ⟨root, rules⟩ ⟨root, rules ++ [rule]⟩ := by
  refine includesAllOf_of_includes rfl fun path isDirectory hpath => ?_
  rcases includes_append_singleton root rules rule path isDirectory with heq | heq
  · rw [heq, h] at hpath
    cases hpath
  · exact heq.symm.trans hpath

/-- A rule that includes adds only. -/
lemma includesAllOf_append_of_negated (h : rule.negated = true) (root : Path)
    (rules : List IgnoreRule) :
    IncludesAllOf ⟨root, rules ++ [rule]⟩ ⟨root, rules⟩ := by
  refine includesAllOf_of_includes rfl fun path isDirectory hpath => ?_
  rcases includes_append_singleton root rules rule path isDirectory with heq | heq
  · exact heq.trans h
  · exact heq.trans hpath

end IgnoreFilter

/-! ## Walks -/

section
variable {t : FileTree} {filter filter' : IgnoreFilter} {root : Path} {l : Location}
  {names : List String}

lemma IgnoreFilter.Passes.of_includesAllOf (h : filter.IncludesAllOf filter')
    (hnames : filter'.Passes names) : filter.Passes names where
  visible := hnames.visible
  included front hfront hne := h.includes _ _ (hnames.included front hfront hne)

/-- Where nothing is a directory, there is nothing to walk. -/
lemma walk_of_not_directory (h : ¬∃ l, t.find root = .ok (l, .directory)) :
    walk t filter root = [] := by
  unfold walk FileTree.visit
  cases hroot : t.find root with
  | error reason => rfl
  | ok found =>
    obtain ⟨l, e⟩ := found
    cases e with
    | directory => exact absurd ⟨l, hroot⟩ h
    | file bytes seconds => rfl
    | link target => rfl

/-- In a tree without links, a filter that includes more lists more, in the same order. -/
theorem walk_sublist (ht : t.WellFormed)
    (hlinks : ∀ l, t.find root = .ok (l, .directory) → t.LinkFreeBelow l)
    (h : filter.IncludesAllOf filter') :
    (walk t filter' root).Sublist (walk t filter root) := by
  by_cases hroot : ∃ l, t.find root = .ok (l, .directory)
  · obtain ⟨l, hl⟩ := hroot
    have hproject : t.IsProject root l := ⟨ht, hl, hlinks l hl⟩
    obtain ⟨below, hwalk, hbelow, hordered⟩ := @walk_eq_map_follow t filter root l hproject
    obtain ⟨below', hwalk', hbelow', hordered'⟩ := @walk_eq_map_follow t filter' root l hproject
    rw [hwalk, hwalk']
    apply List.Sublist.map
    -- both lists are in the same order, so it is enough to compare their members
    apply List.sublist_of_subperm_of_pairwise (r := FileTree.Precedes)
    · apply List.subperm_of_subset
      · refine hordered'.imp ?_
        intro names names' hprecedes heq
        rw [heq] at hprecedes
        exact FileTree.not_precedes_self names' hprecedes
      · intro names hnames
        obtain ⟨hdirectory, habove, hpasses⟩ := (hbelow' names).mp hnames
        exact (hbelow names).mpr ⟨hdirectory, habove, hpasses.of_includesAllOf h⟩
    · exact hordered'
    · exact hordered
  · rw [walk_of_not_directory hroot]
    exact List.nil_sublist _

end

/-! ## The law -/

namespace IgnoreFilter

/-- What one more line at the end of a list of valid lines does. An ordinary line takes away only:
nothing is included that was not included before, and without links a walk lists some of what it
listed, in the same order. A negated line adds only. A line that is blank or a comment leaves the
filter as it is. -/
theorem appended_line_law (hlines : ∀ line ∈ lines, IsValidLine line) (hline : IsValidLine line)
    (root : Path) : ∃ filter filter', ofPatterns root lines = .ok filter ∧
      ofPatterns root (lines ++ [line]) = .ok filter' ∧
      (Text.trim line ≠ "" → (Text.trim line).toList.head? ≠ some '!' →
        (Text.trim line).toList.head? ≠ some '#' →
        filter.IncludesAllOf filter' ∧ ∀ (t : FileTree) (top : Path), t.WellFormed →
          (∀ l, t.find top = .ok (l, .directory) → t.LinkFreeBelow l) →
          (walk t filter' top).Sublist (walk t filter top)) ∧
      ((Text.trim line).toList.head? = some '!' →
        filter'.IncludesAllOf filter ∧ ∀ (t : FileTree) (top : Path), t.WellFormed →
          (∀ l, t.find top = .ok (l, .directory) → t.LinkFreeBelow l) →
          (walk t filter top).Sublist (walk t filter' top)) ∧
      (Text.trim line = "" ∨ (Text.trim line).toList.head? = some '#' → filter' = filter) := by
  obtain ⟨rules, added, hfilter, hadded, hfilter'⟩ := ofPatterns_append_singleton hlines hline root
  have hrule := rulesOf_eq_ok hadded
  refine ⟨⟨root, rules⟩, ⟨root, rules ++ added⟩, hfilter, hfilter', ?_, ?_, ?_⟩
  · intro hblank hnegation hcomment
    rw [if_neg (not_or.mpr ⟨hblank, hcomment⟩)] at hrule
    obtain ⟨rule, rfl, hnegated⟩ := hrule
    have hfalse : rule.negated = false := by simp [hnegated, hnegation]
    have hmore := includesAllOf_append_of_not_negated hfalse root rules
    exact ⟨hmore, fun t top ht hlinks => walk_sublist ht hlinks hmore⟩
  · intro hnegation
    have hspeaks : ¬(Text.trim line = "" ∨ (Text.trim line).toList.head? = some '#') := by
      rintro (hblank | hcomment)
      · rw [hblank] at hnegation
        cases hnegation
      · rw [hcomment] at hnegation
        cases hnegation
    rw [if_neg hspeaks] at hrule
    obtain ⟨rule, rfl, hnegated⟩ := hrule
    have htrue : rule.negated = true := by simp [hnegated, hnegation]
    have hmore := includesAllOf_append_of_negated htrue root rules
    exact ⟨hmore, fun t top ht hlinks => walk_sublist ht hlinks hmore⟩
  · intro hidle
    rw [if_pos hidle] at hrule
    rw [hrule, List.append_nil]

/-- A directory for what is built, with one in it that is kept. -/
def outputTree : FileTree where
  entries := [(["build"], .directory), (["build", "keep"], .directory), (["src"], .directory)]

/-- A negated line, with blanks around it, after one that leaves a directory out. -/
theorem appended_line_keep : (∀ line ∈ ["build/"], IsValidLine line) ∧
    IsValidLine " !build/\t" ∧ outputTree.WellFormed ∧
    ∃ filter filter', ofPatterns ⟨"/"⟩ ["build/"] = .ok filter ∧
      ofPatterns ⟨"/"⟩ ["build/", " !build/\t"] = .ok filter' ∧ filter'.IncludesAllOf filter ∧
      (walk outputTree filter ⟨"/"⟩).Sublist (walk outputTree filter' ⟨"/"⟩) := by
  have hlines : ∀ line ∈ ["build/"], IsValidLine line := by decide +kernel
  have hline : IsValidLine " !build/\t" := by decide +kernel
  have ht : outputTree.WellFormed := by decide
  obtain ⟨filter, filter', hfilter, hfilter', -, hnegated, -⟩ :=
    appended_line_law hlines hline ⟨"/"⟩
  obtain ⟨hmore, hwalk⟩ := hnegated (by decide)
  have hlinks : ∀ l, outputTree.find ⟨"/"⟩ = .ok (l, .directory) → outputTree.LinkFreeBelow l :=
    fun l _ => FileTree.linkFreeBelow_of_entries (by decide) l
  exact ⟨hlines, hline, ht, filter, filter', hfilter, hfilter', hmore,
    hwalk outputTree ⟨"/"⟩ ht hlinks⟩

end IgnoreFilter

end DirectoryNotes
