import DirectoryNotes.FileName
import Mathlib.Logic.Basic
import Mathlib.Tactic.Lemma

/-!
# Paths below a directory

A path that goes down from a directory by plain names, and how the operations on paths see it:

* `Path.follow`, a directory continued by names, and `Path.ofNames`, the names alone as a relative
  path; `join_ofNames` says that joining the second to the directory gives the first;
* `relativeTo?_follow` and `parent?_ofNames`: what is left after the directory in front, and after
  the last name at the end, is taken off;
* `parts_follow`: the parts, from which `follow_inj` reads the names back.

Everything rests on `opened_join`, which says how one more name changes the segments of a path.
-/

namespace DirectoryNotes

/-! ## Cutting at slashes -/

namespace Text

lemma pieces_eq_splitOn (sep : Char) (s : List Char) : pieces sep s = s.splitOn sep := by
  induction s with
  | nil => rfl
  | cons c cs ih =>
    rw [List.splitOn_cons_eq_if_modifyHead, pieces, ih]
    by_cases hc : c = sep
    · simp [hc]
    · simp only [hc, if_false, beq_iff_eq]
      cases hs : cs.splitOn sep with
      | nil => exact absurd hs (List.splitOn_ne_nil sep cs)
      | cons p ps => rfl

lemma pieces_of_notMem {sep : Char} {s : List Char} (h : sep ∉ s) : pieces sep s = [s] := by
  rw [pieces_eq_splitOn, List.splitOn_eq_singleton h]

lemma pieces_append_cons (sep : Char) (a b : List Char) :
    pieces sep (a ++ sep :: b) = pieces sep a ++ pieces sep b := by
  simp only [pieces_eq_splitOn, List.splitOn_append_cons_self]

lemma pieces_append_replicate (sep : Char) (s : List Char) (n : Nat) :
    pieces sep (s ++ List.replicate n sep) = pieces sep s ++ List.replicate n [] := by
  induction n with
  | zero => simp
  | succ n ih =>
    rw [List.replicate_succ', ← List.append_assoc, pieces_append_cons, ih, pieces,
      List.replicate_succ', List.append_assoc]

/-- What has to stand between a text and a name that goes below it: a slash, unless one is there or
the text is empty. -/
def slashAfter (s : List Char) : List Char := if s.getLast?.all (· == '/') then [] else ['/']

lemma slashAfter_cons (s : List Char) : slashAfter ('/' :: s) = slashAfter s := by
  cases s with
  | nil => rfl
  | cons c cs => simp [slashAfter, List.getLast?_cons_cons]

/-- No piece has a slash in it. -/
lemma notMem_of_mem_pieces {sep : Char} {s piece : List Char} (h : piece ∈ pieces sep s) :
    sep ∉ piece := by
  induction s generalizing piece with
  | nil =>
    rw [pieces, List.mem_singleton] at h
    simp [h]
  | cons c cs ih =>
    rw [pieces] at h
    split at h
    · rcases List.mem_cons.mp h with rfl | h
      · simp
      · exact ih h
    · next hc =>
      -- the character goes in front of the first piece
      obtain ⟨first, rest, hcs⟩ := List.exists_cons_of_ne_nil (pieces_ne_nil sep cs)
      rw [hcs] at h ih
      rcases List.mem_cons.mp h with rfl | h
      · have hfirst : sep ∉ first := ih List.mem_cons_self
        exact List.not_mem_cons_of_ne_of_not_mem (Ne.symm hc) hfirst
      · exact ih (List.mem_cons_of_mem _ h)

/-- The pieces of what goes below a text come after those of the text. Where the text ends in a
slash, they take the place of the empty piece after it. -/
lemma pieces_below (s t : List Char) :
    ∃ before idle, (s ≠ [] → before ≠ []) ∧ (∀ piece ∈ idle, piece = []) ∧
      pieces '/' s = before ++ idle ∧
      pieces '/' (s ++ slashAfter s ++ t) = before ++ pieces '/' t := by
  rcases List.eq_nil_or_concat s with rfl | ⟨front, c, rfl⟩
  · exact ⟨[], [[]], by simp, by simp, rfl, by simp [slashAfter]⟩
  · by_cases hc : c = '/'
    · -- the empty piece after the last slash gives its place away
      subst hc
      refine ⟨pieces '/' front, [[]], fun _ => pieces_ne_nil _ _, by simp, ?_, ?_⟩
      · rw [List.concat_eq_append, pieces_append_cons, pieces]
      · simp only [slashAfter, List.concat_eq_append, List.getLast?_concat, Option.all_some,
          beq_self_eq_true, if_true, List.append_nil, List.append_assoc, List.singleton_append]
        rw [pieces_append_cons]
    · refine ⟨pieces '/' (front ++ [c]), [], fun _ => pieces_ne_nil _ _, by simp, by simp, ?_⟩
      simp only [slashAfter, List.concat_eq_append, List.getLast?_concat, Option.all_some,
        beq_iff_eq, hc, if_false, List.append_assoc, List.cons_append, List.nil_append]
      rw [← pieces_append_cons, List.append_assoc, List.singleton_append]

lemma pieces_intercalate {sep : Char} {xs : List (List Char)} (hne : xs ≠ [])
    (h : ∀ x ∈ xs, sep ∉ x) : pieces sep (List.intercalate [sep] xs) = xs := by
  rw [pieces_eq_splitOn, List.splitOn_intercalate sep h hne]

end Text

/-! ## Plain names -/

/-- A name that says where to go down and nothing else: no slash, no step up, no staying. -/
structure IsPlainName (name : String) : Prop where
  ne_empty : name ≠ ""
  ne_here : name ≠ "."
  ne_up : name ≠ ".."
  no_slash : '/' ∉ name.toList

instance (name : String) : Decidable (IsPlainName name) :=
  decidable_of_iff (name ≠ "" ∧ name ≠ "." ∧ name ≠ ".." ∧ '/' ∉ name.toList)
    ⟨fun ⟨h1, h2, h3, h4⟩ => ⟨h1, h2, h3, h4⟩, fun ⟨h1, h2, h3, h4⟩ => ⟨h1, h2, h3, h4⟩⟩

section
variable {name : String}

lemma IsPlainName.toList_ne_nil (h : IsPlainName name) : name.toList ≠ [] :=
  fun hnil => h.ne_empty (String.toList_inj.mp (by simpa using hnil))

lemma IsPlainName.not_idle (h : IsPlainName name) : ¬(name = "" ∨ name = ".") :=
  fun hc => hc.elim h.ne_empty h.ne_here

lemma IsPlainName.ofSegment?_eq (h : IsPlainName name) :
    PathPart.ofSegment? name.toList = some (.name name) := by
  have here : name.toList ≠ ['.'] := fun hc => h.ne_here (String.toList_inj.mp (by simpa using hc))
  have up : name.toList ≠ ['.', '.'] :=
    fun hc => h.ne_up (String.toList_inj.mp (by simpa using hc))
  simp [PathPart.ofSegment?, h.toList_ne_nil, here, up, String.ofList_toList]

lemma IsPlainName.isIdle_eq (h : IsPlainName name) : Path.isIdle name.toList = false := by
  simp [Path.isIdle, h.ofSegment?_eq]

lemma IsPlainName.head?_ne_slash (h : IsPlainName name) : name.toList.head? ≠ some '/' :=
  fun hc => h.no_slash (List.mem_of_mem_head? hc)

lemma IsPlainName.isAbsolute_eq (h : IsPlainName name) : (Path.mk name).isAbsolute = false := by
  simpa [Path.isAbsolute] using h.head?_ne_slash

end

/-! ## Going down -/

namespace Path

variable {p root : Path} {name : String} {names : List String}

/-- A path continued by names, one after the other. -/
def follow (p : Path) (names : List String) : Path := names.foldl (fun q name => q.join ⟨name⟩) p

/-- Names as a relative path, the empty path for no names. -/
def ofNames (names : List String) : Path := ⟨"/".intercalate names⟩

lemma ext_text {p q : Path} (h : p.text.toList = q.text.toList) : p = q := by
  cases p
  cases q
  exact congrArg Path.mk (String.toList_inj.mp h)

@[simp] lemma follow_nil (p : Path) : p.follow [] = p := rfl

lemma follow_cons (p : Path) (name : String) (names : List String) :
    p.follow (name :: names) = (p.join ⟨name⟩).follow names := rfl

lemma follow_append (p : Path) (names more : List String) :
    p.follow (names ++ more) = (p.follow names).follow more := by
  simp only [follow, List.foldl_append]

lemma follow_concat (p : Path) (names : List String) (name : String) :
    p.follow (names ++ [name]) = (p.follow names).join ⟨name⟩ := by
  rw [follow_append, follow_cons, follow_nil]

lemma ofNames_toList (names : List String) :
    (ofNames names).text.toList = List.intercalate ['/'] (names.map String.toList) := by
  simp [ofNames, String.toList_intercalate]

lemma ofNames_toList_cons (name : String) (hne : names ≠ []) :
    (ofNames (name :: names)).text.toList = name.toList ++ '/' :: (ofNames names).text.toList := by
  rw [ofNames_toList, List.map_cons, List.intercalate_cons_of_ne_nil (by simpa using hne),
    ofNames_toList, List.append_assoc, List.singleton_append]

lemma ofNames_singleton (name : String) : ofNames [name] = ⟨name⟩ := by
  simp [ofNames]

/-- Joining puts one slash between the two texts, unless it stands there already. -/
lemma join_toList (p : Path) {q : Path} (hq : q.isAbsolute = false) :
    (p.join q).text.toList = p.text.toList ++ Text.slashAfter p.text.toList ++ q.text.toList := by
  unfold join
  rw [hq, Text.slashAfter]
  simp only [Bool.false_eq_true, if_false]
  split
  · simp
  · simp

/-- After a plain name has been joined, the next join needs a slash. -/
lemma slashAfter_join (p : Path) (h : IsPlainName name) :
    Text.slashAfter (p.join ⟨name⟩).text.toList = ['/'] := by
  have hlast := List.getLast?_eq_some_getLast h.toList_ne_nil
  have hslash : name.toList.getLast h.toList_ne_nil ≠ '/' :=
    fun hc => h.no_slash (hc ▸ List.getLast_mem _)
  rw [join_toList p h.isAbsolute_eq, Text.slashAfter, List.getLast?_append, hlast]
  simp [hslash]

lemma isAbsolute_ofNames (hn : ∀ n ∈ names, IsPlainName n) :
    (ofNames names).isAbsolute = false := by
  cases names with
  | nil => rfl
  | cons n ns =>
    obtain ⟨c, cs, hc⟩ := List.exists_cons_of_ne_nil (hn n (by simp)).toList_ne_nil
    have hslash : c ≠ '/' := by
      intro h
      exact (hn n (by simp)).no_slash (by simp [hc, h])
    cases ns with
    | nil => simp [isAbsolute, ofNames_toList, hc, hslash]
    | cons m ms =>
      simp [isAbsolute, ofNames_toList, List.intercalate_cons_cons, hc, hslash]

/-- Names joined as one relative path lead where following them one by one leads. -/
lemma join_ofNames (p : Path) (hne : names ≠ []) (hn : ∀ n ∈ names, IsPlainName n) :
    p.join (ofNames names) = p.follow names := by
  induction names generalizing p with
  | nil => exact absurd rfl hne
  | cons n ns ih =>
    have hplain := hn n (by simp)
    have hrest : ∀ m ∈ ns, IsPlainName m := fun m hm => hn m (List.mem_cons_of_mem _ hm)
    rcases eq_or_ne ns [] with rfl | hns
    · rw [ofNames_singleton, follow_cons, follow_nil]
    · rw [follow_cons, ← ih (p.join ⟨n⟩) hns hrest]
      apply ext_text
      rw [join_toList p (isAbsolute_ofNames hn), join_toList _ (isAbsolute_ofNames hrest),
        slashAfter_join p hplain, join_toList p hplain.isAbsolute_eq, ofNames_toList_cons n hns]
      simp

/-! ## Segments -/

lemma opened_of_root {rest : List Char} (h : p.text.toList = '/' :: rest) :
    p.opened = (.root, Text.pieces '/' rest) := by
  simp only [opened, h]

lemma opened_of_other {first : List Char} {rest : List (List Char)}
    (hroot : p.text.toList.head? ≠ some '/')
    (h : Text.pieces '/' p.text.toList = first :: rest) :
    p.opened = if first = ['.'] then (.here, rest) else (.plain, first :: rest) := by
  unfold opened
  split
  · next heq => simp [heq] at hroot
  · by_cases hfirst : first = ['.']
    · simp [h, hfirst]
    · rw [h, if_neg hfirst]
      split
      · next heq => simp_all
      · rfl

/-- What goes below a path adds its segments, in place of the empty ones at the end. -/
lemma opened_join_of_ne_empty {q : Path} (hp : p.text ≠ "") (hq : q.isAbsolute = false) :
    ∃ opening before idle, (∀ segment ∈ idle, segment = []) ∧
      p.opened = (opening, before ++ idle) ∧
      (p.join q).opened = (opening, before ++ Text.pieces '/' q.text.toList) := by
  have htext := join_toList p hq
  have hchars : p.text.toList ≠ [] :=
    fun hnil => hp (String.toList_inj.mp (by simpa using hnil))
  obtain ⟨c, cs, hcs⟩ := List.exists_cons_of_ne_nil hchars
  -- how a path opens hangs on its first character, and then on its first segment
  by_cases hc : c = '/'
  · subst hc
    obtain ⟨before, idle, -, hidle, hbefore, hafter⟩ := Text.pieces_below cs q.text.toList
    refine ⟨.root, before, idle, hidle, ?_, ?_⟩
    · rw [opened_of_root hcs, hbefore]
    · have hjoin : (p.join q).text.toList =
          '/' :: (cs ++ Text.slashAfter cs ++ q.text.toList) := by
        rw [htext, hcs, Text.slashAfter_cons]
        rfl
      rw [opened_of_root hjoin, hafter]
  · obtain ⟨before, idle, hne, hidle, hbefore, hafter⟩ :=
      Text.pieces_below p.text.toList q.text.toList
    obtain ⟨first, rest, rfl⟩ := List.exists_cons_of_ne_nil (hne hchars)
    have hroot : p.text.toList.head? ≠ some '/' := by simpa [hcs] using hc
    have hroot' : (p.join q).text.toList.head? ≠ some '/' := by
      rw [htext, hcs]
      simpa using hc
    have h1 := opened_of_other hroot hbefore
    have h2 := opened_of_other hroot' (htext ▸ hafter)
    by_cases hfirst : first = ['.']
    · exact ⟨.here, rest, idle, hidle, by simp [h1, hfirst], by simp [h2, hfirst]⟩
    · exact ⟨.plain, first :: rest, idle, hidle, by simp [h1, hfirst], by simp [h2, hfirst]⟩

/-- One more name is one more segment, in place of the empty ones at the end. -/
lemma opened_join (p : Path) (h : IsPlainName name) :
    ∃ opening before idle, (∀ segment ∈ idle, segment = []) ∧
      p.opened = (opening, before ++ idle) ∧
      (p.join ⟨name⟩).opened = (opening, before ++ [name.toList]) := by
  by_cases hp : p.text = ""
  · have hchars : p.text.toList = [] := by rw [hp]; rfl
    have htext := join_toList p h.isAbsolute_eq
    rw [hchars] at htext
    have hpieces : Text.pieces '/' (p.join ⟨name⟩).text.toList = [name.toList] := by
      rw [htext]
      exact Text.pieces_of_notMem h.no_slash
    have hhere : name.toList ≠ ['.'] :=
      fun hc => h.ne_here (String.toList_inj.mp (by simpa using hc))
    refine ⟨.plain, [], [[]], by simp, ?_, ?_⟩
    · have hempty : Text.pieces '/' p.text.toList = [[]] := by rw [hchars]; rfl
      rw [opened_of_other (by simp [hchars]) hempty]
      simp
    · rw [opened_of_other ?_ hpieces, if_neg hhere]
      · rfl
      · rw [htext]
        exact h.head?_ne_slash
  · have hjoin := opened_join_of_ne_empty hp h.isAbsolute_eq
    rwa [Text.pieces_of_notMem h.no_slash] at hjoin

lemma isIdle_nil : isIdle [] = true := rfl

/-- Names that a path is continued by are its last segments, in place of the empty ones. -/
lemma opened_follow (p : Path) (hne : names ≠ []) (hn : ∀ n ∈ names, IsPlainName n) :
    ∃ opening before idle, (∀ segment ∈ idle, segment = []) ∧
      p.opened = (opening, before ++ idle) ∧
      (p.follow names).opened = (opening, before ++ names.map String.toList) := by
  induction names generalizing p with
  | nil => exact absurd rfl hne
  | cons n ns ih =>
    have hplain := hn n (by simp)
    obtain ⟨opening, before, idle, hidle, h1, h2⟩ := opened_join p hplain
    by_cases hns : ns = []
    · exact ⟨opening, before, idle, hidle, h1, by simpa [hns, follow_cons] using h2⟩
    · obtain ⟨opening', before', idle', hidle', h3, h4⟩ :=
        ih (p.join ⟨n⟩) hns (fun m hm => hn m (List.mem_cons_of_mem _ hm))
      rw [h2] at h3
      obtain ⟨rfl, hsegments⟩ := Prod.mk.inj h3
      -- the last segment is the name, so no empty segment follows it
      have hnone : idle' = [] := by
        rcases List.eq_nil_or_concat idle' with hnil | ⟨front, last, rfl⟩
        · exact hnil
        · have hlast := congrArg List.getLast? hsegments
          simp only [List.concat_eq_append, ← List.append_assoc, List.getLast?_concat,
            Option.some.injEq] at hlast
          exact absurd (hlast.trans (hidle' last (by simp))) hplain.toList_ne_nil
      rw [hnone, List.append_nil] at hsegments
      refine ⟨opening, before, idle, hidle, h1, ?_⟩
      rw [follow_cons, h4, ← hsegments]
      simp

/-! ## Parts -/

lemma filterMap_ofSegment?_names (hn : ∀ n ∈ names, IsPlainName n) :
    (names.map String.toList).filterMap PathPart.ofSegment? = names.map .name := by
  induction names with
  | nil => rfl
  | cons n ns ih =>
    rw [List.map_cons, List.filterMap_cons, (hn n (by simp)).ofSegment?_eq,
      ih (fun m hm => hn m (List.mem_cons_of_mem _ hm)), List.map_cons]

lemma filterMap_ofSegment?_idle {idle : List (List Char)} (h : ∀ segment ∈ idle, isIdle segment) :
    idle.filterMap PathPart.ofSegment? = [] := by
  rw [List.filterMap_eq_nil_iff]
  intro segment hs
  simpa [isIdle] using h segment hs

/-- The parts of a continued path: those of the path, and then the names. -/
lemma parts_follow (p : Path) (hn : ∀ n ∈ names, IsPlainName n) :
    (p.follow names).parts = p.parts ++ names.map .name := by
  by_cases hne : names = []
  · simp [hne]
  · obtain ⟨opening, before, idle, hidle, h1, h2⟩ := opened_follow p hne hn
    have hnone : idle.filterMap PathPart.ofSegment? = [] :=
      filterMap_ofSegment?_idle fun segment hs => hidle segment hs ▸ isIdle_nil
    simp only [parts, h1, h2, List.filterMap_append, hnone, filterMap_ofSegment?_names hn,
      List.append_nil, List.append_assoc]

/-- Names can be read back off a path that is continued by them. -/
lemma follow_inj {more : List String} (hn : ∀ n ∈ names, IsPlainName n)
    (hm : ∀ n ∈ more, IsPlainName n) (h : (p.follow names).parts = (p.follow more).parts) :
    names = more := by
  rw [parts_follow p hn, parts_follow p hm, List.append_cancel_left_eq] at h
  exact (List.map_inj_right fun _ _ heq => PathPart.name.inj heq).mp h

/-- Paths that are continued by names, each by its own, are so as a list. -/
lemma exists_map_follow {paths : List Path}
    (h : ∀ q ∈ paths, ∃ names, q = p.follow names ∧ ∀ n ∈ names, IsPlainName n) :
    ∃ below : List (List String), paths = below.map p.follow ∧
      ∀ names ∈ below, ∀ n ∈ names, IsPlainName n := by
  induction paths with
  | nil => exact ⟨[], rfl, by simp⟩
  | cons q rest ih =>
    obtain ⟨names, rfl, hn⟩ := h q List.mem_cons_self
    obtain ⟨below, rfl, hbelow⟩ := ih fun other hmem => h other (List.mem_cons_of_mem _ hmem)
    exact ⟨names :: below, rfl, by simpa using ⟨hn, hbelow⟩⟩

/-! ## What is left after taking something off -/

/-- Taking the parts of some segments off the front of them leaves what follows them, perhaps after
segments that do not count. -/
lemma dropParts_append (before more : List (List Char)) :
    ∃ idle, (∀ segment ∈ idle, isIdle segment) ∧
      dropParts (before.filterMap PathPart.ofSegment?) (before ++ more) = some (idle ++ more) := by
  induction before with
  | nil => exact ⟨[], by simp, by cases more <;> rfl⟩
  | cons segment rest ih =>
    obtain ⟨idle, hidle, hdrop⟩ := ih
    cases hs : PathPart.ofSegment? segment with
    | none =>
      rw [List.filterMap_cons_none hs]
      cases hparts : rest.filterMap PathPart.ofSegment? with
      | nil =>
        -- no part is left to be taken off, so what does not count stays in front
        have hrest : ∀ s ∈ segment :: rest, isIdle s := by
          intro s hmem
          rcases List.mem_cons.mp hmem with rfl | hmem
          · simp [isIdle, hs]
          · simpa [isIdle] using List.filterMap_eq_nil_iff.mp hparts s hmem
        exact ⟨segment :: rest, hrest, rfl⟩
      | cons part parts =>
        refine ⟨idle, hidle, ?_⟩
        rw [List.cons_append, dropParts, hs, ← hparts]
        exact hdrop
    | some part =>
      refine ⟨idle, hidle, ?_⟩
      rw [List.filterMap_cons_some hs, List.cons_append, dropParts, hs]
      simpa using hdrop

lemma dropWhile_isIdle_append {idle : List (List Char)} (hidle : ∀ segment ∈ idle, isIdle segment)
    (hn : ∀ n ∈ names, IsPlainName n) :
    (idle ++ names.map String.toList).dropWhile isIdle = names.map String.toList := by
  rw [List.dropWhile_append_of_pos hidle]
  cases names with
  | nil => rfl
  | cons n ns => simp [(hn n (by simp)).isIdle_eq]

lemma dropIdleEnd_names (hn : ∀ n ∈ names, IsPlainName n) :
    dropIdleEnd (names.map String.toList) = names.map String.toList := by
  unfold dropIdleEnd
  rw [← List.map_reverse]
  have hnone : ∀ segment ∈ ([] : List (List Char)), isIdle segment := by simp
  have h : (names.reverse.map String.toList).dropWhile isIdle = names.reverse.map String.toList :=
    dropWhile_isIdle_append hnone fun n hmem => hn n (List.mem_reverse.mp hmem)
  rw [h, ← List.map_reverse, List.reverse_reverse]

lemma ofOpened_plain (names : List String) :
    ofOpened .plain (names.map String.toList) = ofNames names := by
  apply ext_text
  simp [ofOpened, Opening.text, ofNames_toList]

/-- The rest of a continued path below any path whose segments come first in it. -/
lemma relativeTo?_rest {before : List (List Char)} (hn : ∀ n ∈ names, IsPlainName n) :
    relativeTo?.rest (before.filterMap PathPart.ofSegment?) (before ++ names.map String.toList) =
      some (ofNames names) := by
  obtain ⟨idle, hidle, hdrop⟩ := dropParts_append before (names.map String.toList)
  rw [relativeTo?.rest, hdrop, Option.map_some, dropWhile_isIdle_append hidle hn,
    dropIdleEnd_names hn, ofOpened_plain]

lemma pieces_head_ne_nil {first s : List Char} {rest : List (List Char)} (hs : s ≠ [])
    (hroot : s.head? ≠ some '/') (h : Text.pieces '/' s = first :: rest) : first ≠ [] := by
  obtain ⟨c, cs, rfl⟩ := List.exists_cons_of_ne_nil hs
  have hc : c ≠ '/' := by simpa using hroot
  rw [Text.pieces, if_neg hc] at h
  rintro rfl
  split at h <;> simp at h

/-- Only the empty text has no parts. -/
lemma parts_ne_nil (h : p.text ≠ "") : p.parts ≠ [] := by
  have hchars : p.text.toList ≠ [] :=
    fun hnil => h (String.toList_inj.mp (by simpa using hnil))
  by_cases hroot : p.text.toList.head? = some '/'
  · obtain ⟨rest, hrest⟩ := List.head?_eq_some_iff.mp hroot
    simp [parts, opened_of_root hrest, Opening.parts]
  · obtain ⟨first, rest, hpieces⟩ :=
      List.exists_cons_of_ne_nil (Text.pieces_ne_nil '/' p.text.toList)
    unfold parts
    rw [opened_of_other hroot hpieces]
    by_cases hfirst : first = ['.']
    · simp [hfirst, Opening.parts]
    · have hne := pieces_head_ne_nil hchars hroot hpieces
      rw [if_neg hfirst]
      by_cases hup : first = ['.', '.']
      · simp [PathPart.ofSegment?, hup]
      · simp [PathPart.ofSegment?, hfirst, hne, hup]

/-- A directory in front of names is taken off again, which leaves the names. -/
lemma relativeTo?_follow (hroot : root.text ≠ "") (hn : ∀ n ∈ names, IsPlainName n) :
    (root.follow names).relativeTo? root = some (ofNames names) := by
  have hopened : ∃ opening before idle, (∀ segment ∈ idle, isIdle segment) ∧
      root.opened = (opening, before ++ idle) ∧
      (root.follow names).opened = (opening, before ++ names.map String.toList) := by
    by_cases hne : names = []
    · exact ⟨root.opened.1, root.opened.2, [], by simp, by simp, by simp [hne]⟩
    · obtain ⟨opening, before, idle, hidle, h1, h2⟩ := opened_follow root hne hn
      exact ⟨opening, before, idle, fun segment hs => hidle segment hs ▸ isIdle_nil, h1, h2⟩
  obtain ⟨opening, before, idle, hidle, h1, h2⟩ := hopened
  have hparts : root.parts = opening.parts ++ before.filterMap PathPart.ofSegment? := by
    simp only [parts, h1, List.filterMap_append, filterMap_ofSegment?_idle hidle, List.append_nil]
  have hrest : relativeTo?.rest (before.filterMap PathPart.ofSegment?)
      (before ++ names.map String.toList) = some (ofNames names) := relativeTo?_rest hn
  -- a root without parts is treated on its own, but only the empty text has none
  have hne := parts_ne_nil hroot
  unfold relativeTo?
  rw [h2]
  cases opening with
  | root => simpa [hparts, Opening.parts] using hrest
  | here => simpa [hparts, Opening.parts] using hrest
  | plain =>
    rw [hparts, Opening.parts, List.nil_append] at hne ⊢
    simpa using hrest

/-! ## Names as a path -/

lemma opened_ofNames (hne : names ≠ []) (hn : ∀ n ∈ names, IsPlainName n) :
    (ofNames names).opened = (.plain, names.map String.toList) := by
  obtain ⟨n, ns, rfl⟩ := List.exists_cons_of_ne_nil hne
  have hpieces : Text.pieces '/' (ofNames (n :: ns)).text.toList =
      n.toList :: ns.map String.toList := by
    rw [ofNames_toList, Text.pieces_intercalate (by simp)]
    · rfl
    · intro x hx
      obtain ⟨m, hm, rfl⟩ := List.mem_map.mp hx
      exact (hn m hm).no_slash
  have habsolute : (ofNames (n :: ns)).text.toList.head? ≠ some '/' := by
    simpa [isAbsolute] using isAbsolute_ofNames hn
  have hhere : n.toList ≠ ['.'] :=
    fun hc => (hn n (by simp)).ne_here (String.toList_inj.mp (by simpa using hc))
  rw [opened_of_other habsolute hpieces, if_neg hhere]
  rfl

lemma parts_ofNames (hn : ∀ n ∈ names, IsPlainName n) :
    (ofNames names).parts = names.map .name := by
  by_cases hne : names = []
  · subst hne
    decide
  · simp only [parts, opened_ofNames hne hn, Opening.parts, List.nil_append,
      filterMap_ofSegment?_names hn]

lemma isEmpty_ofNames (hn : ∀ n ∈ names, IsPlainName n) :
    (ofNames names).isEmpty = decide (names = []) := by
  by_cases hne : names = []
  · subst hne
    decide
  · -- the empty text would have no parts
    have hparts : (ofNames names).parts ≠ [] := by
      rw [parts_ofNames hn]
      simpa using hne
    have htext : (ofNames names).text ≠ "" := by
      intro hempty
      apply hparts
      have : ofNames names = ⟨""⟩ := congrArg Path.mk hempty
      rw [this]
      decide
    simpa [isEmpty, hne, String.isEmpty_iff] using htext

/-- A directory and a relative path of names below it are joined, unless there are no names. -/
lemma join_ofNames_ite (p : Path) (hn : ∀ n ∈ names, IsPlainName n) :
    (if (ofNames names).isEmpty then p else p.join (ofNames names)) = p.follow names := by
  rw [isEmpty_ofNames hn]
  by_cases hempty : names = []
  · simp [hempty]
  · rw [join_ofNames p hempty hn]
    simp [hempty]

/-- What goes below an absolute path is absolute. -/
lemma isAbsolute_join {q : Path} (hp : p.isAbsolute = true) : (p.join q).isAbsolute = true := by
  cases hq : q.isAbsolute with
  | true => rwa [join, hq, if_pos rfl]
  | false =>
    have hslash : p.text.toList.head? = some '/' := by simpa [isAbsolute] using hp
    obtain ⟨rest, hrest⟩ := List.head?_eq_some_iff.mp hslash
    simp [isAbsolute, join_toList p hq, hrest]

lemma isAbsolute_follow (hp : p.isAbsolute = true) : (p.follow names).isAbsolute = true := by
  induction names generalizing p with
  | nil => exact hp
  | cons name rest ih => exact ih (isAbsolute_join hp)

lemma join_of_isAbsolute (p : Path) {q : Path} (hq : q.isAbsolute = true) : p.join q = q := by
  rw [join, hq, if_pos rfl]

/-- Above a relative path of names lies the one without the last name. -/
lemma parent?_ofNames (hne : names ≠ []) (hn : ∀ n ∈ names, IsPlainName n) :
    (ofNames names).parent? = some (ofNames names.dropLast) := by
  obtain ⟨front, last, rfl⟩ := (List.eq_nil_or_concat names).resolve_left hne
  rw [List.concat_eq_append] at hn ⊢
  have hfront : ∀ n ∈ front, IsPlainName n := fun n hmem => hn n (by simp [hmem])
  have hidle := (hn last (by simp)).isIdle_eq
  have hdrop := dropIdleEnd_names hfront
  unfold dropIdleEnd at hdrop
  unfold parent? properAncestors
  rw [opened_ofNames (by simp) hn, List.map_append, List.reverse_append]
  simp only [List.map_cons, List.map_nil, List.reverse_singleton, List.singleton_append, above,
    hidle, Bool.false_eq_true, if_false, List.head?_cons, hdrop, ofOpened_plain,
    List.dropLast_concat]

end Path

end DirectoryNotes
