import DirectoryNotes.Ignore.Filter
import DirectoryNotes.Proofs.Path.Relative

/-!
# The nearest directory that is spoken of

A filter decides on a path by the rules that speak of it or, if none does, of the nearest directory
above it. What is below a directory that is left out may so be included again:

* `includes_ofOpened_plain`: how a path is written between its names does not matter;
* `ancestors_append`: the directories above a path that goes on from another;
* `IgnoreFilter.TakesBack`: a rule that speaks of a directory below another and includes it.
  `takesBack_of_includes` says that there is one wherever a path is included below a directory that
  is left out.
-/

namespace DirectoryNotes.IgnoreFilter

open DirectoryNotes.Path

variable {filter : IgnoreFilter} {rules : List IgnoreRule} {root path : Path}
  {names front more : List String} {segments xs ys : List (List Char)} {b : Bool}

/-! ## Slashes for backslashes -/

/-- A character, or a slash for a backslash. -/
def toSlash (c : Char) : Char := if c = '\\' then '/' else c

/-- What a segment stands for once its backslashes are slashes. -/
def slashedSegments (segment : List Char) : List (List Char) :=
  (Text.pieces '/' (segment.map toSlash)).filter (!isIdle ·)

lemma normalized_eq (path : Path) : normalized path =
    ofOpened (if (path.text.toList.map toSlash).head? = some '/' then .root else .plain)
      (slashedSegments path.text.toList) := by
  let slashed : Path := ⟨.ofList (path.text.toList.map toSlash)⟩
  have htext : slashed.text.toList = path.text.toList.map toSlash := String.toList_ofList
  have hnormalized : normalized path = ofOpened
      (if slashed.opened.1 = .here then .plain else slashed.opened.1)
      (slashed.opened.2.filter (!isIdle ·)) := rfl
  rw [hnormalized, slashedSegments]
  by_cases hslash : (path.text.toList.map toSlash).head? = some '/'
  · obtain ⟨rest, hrest⟩ := List.head?_eq_some_iff.mp hslash
    rw [opened_of_root (htext.trans hrest), if_pos hslash, hrest, Text.pieces, if_pos rfl]
    rfl
  · obtain ⟨first, rest, hpieces⟩ :=
      List.exists_cons_of_ne_nil (Text.pieces_ne_nil '/' (path.text.toList.map toSlash))
    have hopened := opened_of_other (p := slashed) (by rwa [htext]) (by rw [htext]; exact hpieces)
    rw [hopened, if_neg hslash, hpieces]
    by_cases hfirst : first = ['.']
    · subst hfirst
      rfl
    · rw [if_neg hfirst]
      rfl

lemma map_toSlash_intercalate (xs : List (List Char)) :
    (List.intercalate ['/'] xs).map toSlash = List.intercalate ['/'] (xs.map (·.map toSlash)) := by
  induction xs with
  | nil => rfl
  | cons x rest ih =>
    cases rest with
    | nil => simp
    | cons y more =>
      rw [List.intercalate_cons_cons, List.map_append, List.map_append, ih]
      simp only [List.map_cons, List.intercalate_cons_cons, List.map_nil]
      rfl

/-- The segments of a path are taken apart one by one. -/
lemma slashedSegments_intercalate (xs : List (List Char)) :
    slashedSegments (List.intercalate ['/'] xs) = xs.flatMap slashedSegments := by
  unfold slashedSegments
  rw [map_toSlash_intercalate]
  induction xs with
  | nil => rfl
  | cons x rest ih =>
    cases rest with
    | nil => simp
    | cons y more =>
      rw [List.map_cons, List.map_cons, List.intercalate_cons_cons, List.append_assoc,
        List.singleton_append, Text.pieces_append_cons, List.filter_append, List.flatMap_cons]
      rw [List.map_cons] at ih
      rw [ih]

lemma slashedSegments_of_isIdle {segment : List Char} (h : isIdle segment = true) :
    slashedSegments segment = [] := by
  have hsegment : segment = [] ∨ segment = ['.'] := by
    unfold isIdle PathPart.ofSegment? at h
    split at h
    · assumption
    · split at h <;> cases h
  rcases hsegment with rfl | rfl
  · rfl
  · decide

lemma flatMap_slashedSegments_filter (xs : List (List Char)) :
    (xs.filter (!isIdle ·)).flatMap slashedSegments = xs.flatMap slashedSegments := by
  induction xs with
  | nil => rfl
  | cons x rest ih =>
    by_cases hidle : isIdle x = true
    · rw [List.filter_cons_of_neg (by simpa using hidle), ih, List.flatMap_cons,
        slashedSegments_of_isIdle hidle, List.nil_append]
    · rw [List.filter_cons_of_pos (by simpa using hidle), List.flatMap_cons, List.flatMap_cons, ih]

lemma head?_intercalate {x : List Char} (hx : x ≠ []) (rest : List (List Char)) :
    (List.intercalate ['/'] (x :: rest)).head? = x.head? := by
  obtain ⟨c, cs, rfl⟩ := List.exists_cons_of_ne_nil hx
  cases rest with
  | nil => simp
  | cons y more => simp [List.intercalate_cons_cons]

/-- Idle segments between the names do not matter to a filter. -/
lemma normalized_ofOpened_plain (h : IsTight segments)
    (hnames : segments.filter (!isIdle ·) = names.map String.toList) :
    normalized (ofOpened .plain segments) = normalized (ofNames names) := by
  have hplain : ofNames names = ofOpened .plain (segments.filter (!isIdle ·)) := by
    rw [hnames, ofOpened_plain]
  rw [hplain, normalized_eq, normalized_eq]
  simp only [toList_ofOpened_plain, slashedSegments_intercalate, flatMap_slashedSegments_filter,
    List.head?_map]
  -- the first segment is the same, so both begin with a slash or none does
  cases segments with
  | nil => rfl
  | cons first rest =>
    have hidle := h.first first rfl
    have hne : first ≠ [] := by
      rintro rfl
      cases hidle
    rw [List.filter_cons_of_pos (by simp [hidle]), head?_intercalate hne, head?_intercalate hne]

lemma includes_ofOpened_plain (filter : IgnoreFilter) (h : IsTight segments)
    (hnames : segments.filter (!isIdle ·) = names.map String.toList) (isDirectory : Bool) :
    filter.includes (ofOpened .plain segments) isDirectory =
      filter.includes (ofNames names) isDirectory := by
  unfold includes
  rw [normalized_ofOpened_plain h hnames]

/-! ## Directories above -/

/-- Segments that all count, each on its own. -/
structure IsSolid (segments : List (List Char)) : Prop where
  no_slash : ∀ segment ∈ segments, '/' ∉ segment
  counts : ∀ segment ∈ segments, isIdle segment = false

lemma IsSolid.isTight (h : IsSolid segments) : IsTight segments where
  no_slash := h.no_slash
  first segment hs := h.counts segment (List.mem_of_mem_head? hs)
  last segment hs := h.counts segment (List.mem_of_mem_getLast? hs)

lemma IsSolid.of_append_left (h : IsSolid (xs ++ ys)) : IsSolid xs where
  no_slash segment hs := h.no_slash segment (List.mem_append_left ys hs)
  counts segment hs := h.counts segment (List.mem_append_left ys hs)

lemma isSolid_slashed (names : List String) :
    IsSolid (names.flatMap fun n => slashedSegments n.toList) := by
  have hmem : ∀ segment ∈ names.flatMap (fun n => slashedSegments n.toList),
      '/' ∉ segment ∧ isIdle segment = false := by
    intro segment hs
    obtain ⟨name, -, hs⟩ := List.mem_flatMap.mp hs
    obtain ⟨hpiece, hidle⟩ := List.mem_filter.mp hs
    exact ⟨Text.notMem_of_mem_pieces hpiece, by simpa using hidle⟩
  exact ⟨fun segment hs => (hmem segment hs).1, fun segment hs => (hmem segment hs).2⟩

/-- Directly above a path lies the one without its last segment. -/
lemma ancestors_concat {last : List Char} (h : IsSolid (xs ++ [last])) :
    (ofOpened .plain (xs ++ [last])).ancestors =
      ofOpened .plain (xs ++ [last]) :: (ofOpened .plain xs).ancestors := by
  have hidle : isIdle last = false := h.counts last (by simp)
  have hxs := h.of_append_left
  have hreverse : xs.reverse.dropWhile isIdle = xs.reverse := by
    rw [List.dropWhile_eq_self_iff]
    intro hpos
    have hcounts := hxs.counts xs.reverse[0] (List.mem_reverse.mp (List.getElem_mem hpos))
    rwa [Bool.not_eq_true]
  have habove : above .plain xs.reverse = (ofOpened .plain xs).properAncestors := by
    by_cases hne : xs = []
    · subst hne
      rfl
    · rw [properAncestors, opened_ofOpened_plain hxs.isTight hne]
  rw [ancestors, properAncestors, opened_ofOpened_plain h.isTight (by simp), List.reverse_append,
    List.reverse_singleton, List.singleton_append, above, hidle]
  simp only [Bool.false_eq_true, if_false, hreverse, List.reverse_reverse, habove]
  rfl

/-- Above a path that goes on from another lie the directories between them, and what lies above
the other. -/
lemma ancestors_append (h : IsSolid (xs ++ ys)) : ∃ between : List Path,
    (ofOpened .plain (xs ++ ys)).ancestors = between ++ (ofOpened .plain xs).ancestors ∧
      ∀ p ∈ between, ∃ more, more ≠ [] ∧ p = ofOpened .plain (xs ++ more) := by
  induction ys using List.reverseRecOn with
  | nil => exact ⟨[], by simp, by simp⟩
  | append_singleton ys last ih =>
    rw [← List.append_assoc] at h
    obtain ⟨between, hancestors, hbetween⟩ := ih h.of_append_left
    refine ⟨ofOpened .plain (xs ++ (ys ++ [last])) :: between, ?_, ?_⟩
    · rw [← List.append_assoc, ancestors_concat h, hancestors, List.cons_append]
    · intro p hp
      rcases List.mem_cons.mp hp with rfl | hp
      · exact ⟨ys ++ [last], by simp, rfl⟩
      · exact hbetween p hp

/-! ## Decisions -/

lemma textAfter?_eq_none_of_slash {start text : String} (hstart : start.toList.head? = some '/')
    (htext : text.toList.head? ≠ some '/') : textAfter? start text = none := by
  refine if_neg ?_
  intro hbegins
  obtain ⟨rest, hrest⟩ := List.head?_eq_some_iff.mp hstart
  rw [Text.beginsWith, List.isPrefixOf_iff_prefix] at hbegins
  obtain ⟨more, hmore⟩ := hbegins
  refine htext ?_
  rw [← hmore, hrest]
  rfl

/-- An absolute root is never in front of a relative path. -/
lemma withoutRoot_of_isAbsolute (hroot : root.isAbsolute = true) (hpath : path.isAbsolute = false) :
    withoutRoot root path = path := by
  have hslash : root.text.toList.head? = some '/' := by simpa [isAbsolute] using hroot
  have hrelative : path.text.toList.head? ≠ some '/' := by simpa [isAbsolute] using hpath
  have hhere : textAfter? "./" root.text = none := by
    refine if_neg ?_
    obtain ⟨rest, hrest⟩ := List.head?_eq_some_iff.mp hslash
    rw [Text.beginsWith, List.isPrefixOf_iff_prefix, hrest]
    intro hbegins
    obtain ⟨more, hmore⟩ := hbegins
    cases hmore
  unfold withoutRoot
  rw [hhere, Option.getD_none]
  dsimp only
  split
  · rfl
  · rw [textAfter?_eq_none_of_slash hslash hrelative]

lemma nearestDecision?_eq (rules : List IgnoreRule) (path : Path) :
    nearestDecision? rules path true =
      path.ancestors.findSome? fun p => decision? rules p.text true := by
  rw [nearestDecision?, ancestors, List.findSome?_cons]
  cases decision? rules path.text true with
  | none => rfl
  | some included => rfl

/-- For an absolute root a directory is included unless the nearest that is spoken of is left
out. -/
lemma includes_of_isAbsolute (hroot : filter.root.isAbsolute = true) (path : Path) :
    filter.includes path true = ((normalized path).isEmpty || (normalized path).isAbsolute ||
      ((normalized path).ancestors.findSome? fun p => decision? filter.rules p.text true).getD
        true) := by
  unfold includes
  dsimp only
  cases hempty : (normalized path).isEmpty with
  | true => rfl
  | false =>
    cases habsolute : (normalized path).isAbsolute with
    | true => rfl
    | false =>
      rw [withoutRoot_of_isAbsolute hroot habsolute, nearestDecision?_eq]
      rfl

lemma exists_rule_of_decision? {text : String} (h : decision? rules text true = some b) :
    ∃ rule ∈ rules, rule.negated = b ∧ rule.speaksOf text true = true := by
  unfold decision? at h
  obtain ⟨rule, hfind, hnegated⟩ := Option.map_eq_some_iff.mp h
  have hspeaks := List.find?_some (p := fun r : IgnoreRule => r.speaksOf text true) hfind
  exact ⟨rule, List.mem_reverse.mp (List.mem_of_find?_eq_some hfind), hnegated, hspeaks⟩

/-! ## Including again -/

/-- A rule that includes speaks of a directory on the way to names, below the one that the first of
them lead to. -/
def TakesBack (filter : IgnoreFilter) (front names : List String) : Prop :=
  ∃ rule ∈ filter.rules, rule.negated = true ∧
    ∃ p ∈ (normalized (ofNames names)).ancestors, rule.speaksOf p.text true = true ∧
      ∃ rest, p.text = (normalized (ofNames front)).text ++ "/" ++ rest

/-- The names that are taken together decide how the path opens, and each gives segments of its
own. -/
lemma normalized_ofNames {name : String} (hname : IsPlainName name) (rest : List String) :
    normalized (ofNames (name :: rest)) =
      ofOpened (if name.toList.head?.map toSlash = some '/' then .root else .plain)
        ((name :: rest).flatMap fun n => slashedSegments n.toList) := by
  rw [normalized_eq, ofNames_toList, slashedSegments_intercalate, List.flatMap_map, List.head?_map,
    List.map_cons, head?_intercalate hname.toList_ne_nil]

lemma intercalate_append (hxs : xs ≠ []) (hys : ys ≠ []) :
    List.intercalate ['/'] (xs ++ ys) =
      List.intercalate ['/'] xs ++ '/' :: List.intercalate ['/'] ys := by
  induction xs with
  | nil => exact absurd rfl hxs
  | cons x rest ih =>
    by_cases hrest : rest = []
    · subst hrest
      rw [List.singleton_append, List.intercalate_cons_of_ne_nil hys]
      simp
    · rw [List.cons_append, List.intercalate_cons_of_ne_nil (by simp [hrest]), ih hrest,
        List.intercalate_cons_of_ne_nil hrest]
      simp

/-- A path from the root that goes on from another does so segment by segment. -/
lemma exists_isSolid_of_append (hne : front ≠ []) (hn : ∀ n ∈ front ++ more, IsPlainName n)
    (hrelative : (normalized (ofNames front)).isAbsolute = false) :
    ∃ xs ys, IsSolid (xs ++ ys) ∧ normalized (ofNames front) = ofOpened .plain xs ∧
      normalized (ofNames (front ++ more)) = ofOpened .plain (xs ++ ys) := by
  obtain ⟨name, rest, rfl⟩ := List.exists_cons_of_ne_nil hne
  have hname : IsPlainName name := hn name (by simp)
  have hopening : ¬name.toList.head?.map toSlash = some '/' := by
    intro hslash
    rw [normalized_ofNames hname, if_pos hslash] at hrelative
    simp [ofOpened, isAbsolute, Opening.text] at hrelative
  have hsolid := isSolid_slashed (name :: rest ++ more)
  rw [List.flatMap_append] at hsolid
  refine ⟨_, _, hsolid, ?_, ?_⟩
  · rw [normalized_ofNames hname, if_neg hopening]
  · rw [List.cons_append, normalized_ofNames hname, if_neg hopening, ← List.cons_append,
      List.flatMap_append]

lemma eq_some_true_of_or {a b : Option Bool} (hb : b.getD true = false)
    (h : (a.or b).getD true = true) : a = some true := by
  cases b with
  | none => cases hb
  | some b =>
    cases a with
    | none => exact absurd (hb.symm.trans h) (by decide)
    | some a => exact congrArg some h

/-- Only a rule that includes brings a directory back that lies below one that is left out. -/
theorem takesBack_of_includes (hroot : filter.root.isAbsolute = true) (hfront : front <+: names)
    (hn : ∀ n ∈ names, IsPlainName n) (hexcluded : filter.includes (ofNames front) true = false)
    (hincluded : filter.includes (ofNames names) true = true) : filter.TakesBack front names := by
  obtain ⟨more, rfl⟩ := hfront
  rw [includes_of_isAbsolute hroot, Bool.or_eq_false_iff, Bool.or_eq_false_iff] at hexcluded
  obtain ⟨⟨hempty, hrelative⟩, hexcluded⟩ := hexcluded
  have hne : front ≠ [] := by
    rintro rfl
    have hnone : (normalized (ofNames [])).isEmpty = true := by decide
    rw [hnone] at hempty
    cases hempty
  obtain ⟨xs, ys, hsolid, hfront, hnames⟩ := exists_isSolid_of_append hne hn hrelative
  have hxs : xs ≠ [] := by
    rw [hfront, isEmpty_ofOpened_plain hsolid.of_append_left.isTight] at hempty
    simpa using hempty
  have hxsys : xs ++ ys ≠ [] := by simp [hxs]
  obtain ⟨between, hancestors, hbetween⟩ := ancestors_append hsolid
  rw [includes_of_isAbsolute hroot, hnames, isEmpty_ofOpened_plain hsolid.isTight,
    isAbsolute_ofOpened_plain hsolid.isTight, hancestors, List.findSome?_append,
    decide_eq_false hxsys, Bool.or_self, Bool.false_or] at hincluded
  -- what is above the front leaves out, so one of the directories between includes
  rw [hfront] at hexcluded
  obtain ⟨p, hp, hdecision⟩ :=
    List.exists_of_findSome?_eq_some (eq_some_true_of_or hexcluded hincluded)
  obtain ⟨rule, hrule, hnegated, hspeaks⟩ := exists_rule_of_decision? hdecision
  refine ⟨rule, hrule, hnegated, p, ?_, hspeaks, ?_⟩
  · rw [hnames, hancestors]
    exact List.mem_append_left _ hp
  · obtain ⟨zs, hzs, rfl⟩ := hbetween p hp
    refine ⟨.ofList (List.intercalate ['/'] zs), ?_⟩
    rw [hfront]
    apply String.toList_inj.mp
    simp [toList_ofOpened_plain, intercalate_append hxs hzs]

end DirectoryNotes.IgnoreFilter
