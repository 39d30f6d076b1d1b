import DirectoryNotes.Proofs.Path.Relative

/-!
# Paths without what counts for nothing at the end

The path above one that is joined with a name is the path that it was joined to, but for slashes and
points at the end of that one:

* `ofOpened_opened`: a path is put together again from its opening and its segments;
* `opened_trimmed`, `parts_trimmed`, `trimmed_prefix`: what is left of a path when its end is trimmed;
* `parent?_join`: what lies above a joined path;
* `relativeTo?_trimmed`: a trimmed path lies nowhere below the path itself.
-/

namespace DirectoryNotes.Path

variable {p : Path} {opening : Opening} {segments : List (List Char)} {name : String}
  {names : List String}

/-! ## Putting together -/

lemma intercalate_pieces (s : List Char) : List.intercalate ['/'] (Text.pieces '/' s) = s := by
  rw [Text.pieces_eq_splitOn, List.intercalate_splitOn]

lemma toList_ofOpened_root (segments : List (List Char)) :
    (ofOpened .root segments).text.toList = '/' :: List.intercalate ['/'] segments := by
  simp [ofOpened, Opening.text]

lemma toList_ofOpened_here (segments : List (List Char)) :
    (ofOpened .here segments).text.toList = List.intercalate ['/'] (['.'] :: segments) := by
  cases segments <;> simp [ofOpened, Opening.text, List.intercalate_cons_cons]

/-- A path is its opening and its segments. -/
theorem ofOpened_opened (p : Path) : ofOpened p.opened.1 p.opened.2 = p := by
  apply ext_text
  by_cases hroot : p.text.toList.head? = some '/'
  · obtain ⟨rest, hrest⟩ := List.head?_eq_some_iff.mp hroot
    rw [opened_of_root hrest, toList_ofOpened_root, intercalate_pieces, hrest]
  · obtain ⟨first, rest, hpieces⟩ :=
      List.exists_cons_of_ne_nil (Text.pieces_ne_nil '/' p.text.toList)
    have hchars := intercalate_pieces p.text.toList
    rw [hpieces] at hchars
    rw [opened_of_other hroot hpieces]
    by_cases hfirst : first = ['.']
    · rw [if_pos hfirst, toList_ofOpened_here, ← hfirst, hchars]
    · rw [if_neg hfirst, toList_ofOpened_plain, hchars]

/-! ## Trimming -/

lemma dropIdleEnd_append_idle {idle : List (List Char)} (hidle : ∀ segment ∈ idle, isIdle segment)
    (before : List (List Char)) : dropIdleEnd (before ++ idle) = dropIdleEnd before := by
  unfold dropIdleEnd
  rw [List.reverse_append, List.dropWhile_append_of_pos]
  exact fun segment hmem => hidle segment (List.mem_reverse.mp hmem)

/-- What is trimmed is idle. -/
lemma exists_dropIdleEnd_append (segments : List (List Char)) :
    ∃ idle, (∀ segment ∈ idle, isIdle segment) ∧ segments = dropIdleEnd segments ++ idle := by
  refine ⟨(segments.reverse.takeWhile isIdle).reverse, fun segment hmem => ?_, ?_⟩
  · exact List.mem_takeWhile_imp (List.mem_reverse.mp hmem)
  · rw [dropIdleEnd, ← List.reverse_append, List.takeWhile_append_dropWhile, List.reverse_reverse]

lemma dropIdleEnd_concat {segment : List Char} (h : isIdle segment = false)
    (before : List (List Char)) : dropIdleEnd (before ++ [segment]) = before ++ [segment] := by
  simp [dropIdleEnd, h]

/-- The segments of a plain path do not begin with an idle one, unless the path is empty. -/
lemma isIdle_head_of_plain (hp : p.text ≠ "") (h : p.opened = (.plain, segments)) :
    ∃ first rest, segments = first :: rest ∧ isIdle first = false := by
  have hchars : p.text.toList ≠ [] :=
    fun hnil => hp (String.toList_inj.mp (by simpa using hnil))
  by_cases hroot : p.text.toList.head? = some '/'
  · obtain ⟨rest, hrest⟩ := List.head?_eq_some_iff.mp hroot
    rw [opened_of_root hrest] at h
    cases h
  · obtain ⟨first, rest, hpieces⟩ :=
      List.exists_cons_of_ne_nil (Text.pieces_ne_nil '/' p.text.toList)
    rw [opened_of_other hroot hpieces] at h
    by_cases hfirst : first = ['.']
    · rw [if_pos hfirst] at h
      cases h
    · rw [if_neg hfirst] at h
      have hne := pieces_head_ne_nil hchars hroot hpieces
      refine ⟨first, rest, (Prod.mk.inj h).2.symm, ?_⟩
      by_cases hup : first = ['.', '.'] <;> simp [isIdle, PathPart.ofSegment?, hfirst, hne, hup]

/-- A trimmed path has the opening of the path, and its segments without the idle ones at the end. An
empty segment stands after a slash that is all that is left. -/
theorem opened_trimmed (hp : p.text ≠ "") : ∃ idle, (∀ segment ∈ idle, segment = []) ∧
    p.trimmed.opened = (p.opened.1, dropIdleEnd p.opened.2 ++ idle) := by
  have hslash : ∀ segment ∈ dropIdleEnd p.opened.2, '/' ∉ segment := by
    intro segment hmem
    rw [dropIdleEnd_eq_rdropWhile] at hmem
    exact notMem_of_mem_opened ((List.rdropWhile_prefix isIdle p.opened.2).subset hmem)
  unfold trimmed
  obtain ⟨opening, segments, hopened⟩ : ∃ opening segments, p.opened = (opening, segments) :=
    ⟨_, _, rfl⟩
  rw [hopened] at hslash ⊢
  cases opening with
  | root =>
    by_cases hnil : dropIdleEnd segments = []
    · refine ⟨[[]], by simp, ?_⟩
      have hslash : (ofOpened .root []).opened = (.root, [[]]) := by decide
      rw [hnil, hslash, List.nil_append]
    · refine ⟨[], by simp, ?_⟩
      rw [opened_of_root (toList_ofOpened_root _), Text.pieces_intercalate hnil hslash,
        List.append_nil]
  | here =>
    have hpoint : ∀ segment ∈ ['.'] :: dropIdleEnd segments, '/' ∉ segment := by
      simpa using hslash
    have hpieces : Text.pieces '/' (ofOpened .here (dropIdleEnd segments)).text.toList =
        ['.'] :: dropIdleEnd segments := by
      rw [toList_ofOpened_here, Text.pieces_intercalate (List.cons_ne_nil _ _) hpoint]
    have hroot : (ofOpened .here (dropIdleEnd segments)).text.toList.head? ≠ some '/' := by
      simp [ofOpened, Opening.text]
    refine ⟨[], by simp, ?_⟩
    rw [opened_of_other hroot hpieces, if_pos rfl, List.append_nil]
  | plain =>
    obtain ⟨first, rest, rfl, hidle⟩ := isIdle_head_of_plain hp hopened
    have htight : IsTight (dropIdleEnd (first :: rest)) := by
      refine isTight_dropIdleEnd (fun segment hmem => ?_) fun segment hhead => ?_
      · exact notMem_of_mem_opened (p := p) (by rw [hopened]; exact hmem)
      · obtain rfl : first = segment := Option.some.inj hhead
        exact hidle
    have hne : dropIdleEnd (first :: rest) ≠ [] := by
      rw [dropIdleEnd_eq_rdropWhile, ne_eq, List.rdropWhile_eq_nil_iff]
      exact fun hall => by simp [hall first List.mem_cons_self] at hidle
    exact ⟨[], by simp, by rw [opened_ofOpened_plain htight hne, List.append_nil]⟩

/-- Trimming takes no part away. -/
lemma parts_trimmed (hp : p.text ≠ "") : p.trimmed.parts = p.parts := by
  obtain ⟨idle, hidle, hopened⟩ := opened_trimmed hp
  have hnone : idle.filterMap PathPart.ofSegment? = [] :=
    filterMap_ofSegment?_idle fun segment hs => hidle segment hs ▸ isIdle_nil
  simp only [parts, hopened, List.filterMap_append, hnone, List.append_nil, filterMap_dropIdleEnd]

lemma text_trimmed_ne_empty (hp : p.text ≠ "") : p.trimmed.text ≠ "" := by
  intro hempty
  have hparts := parts_trimmed hp
  have hnil : p.trimmed = ⟨""⟩ := congrArg Path.mk hempty
  rw [hnil] at hparts
  exact parts_ne_nil hp (hparts.symm.trans (by decide))

lemma intercalate_prefix {a b : List (List Char)} (h : a <+: b) :
    List.intercalate ['/'] a <+: List.intercalate ['/'] b := by
  induction a generalizing b with
  | nil => exact List.nil_prefix
  | cons first rest ih =>
    obtain ⟨more, rfl⟩ := h
    cases rest with
    | nil =>
      cases more with
      | nil => exact List.prefix_refl _
      | cons next more =>
        rw [List.singleton_append, List.intercalate_cons_cons, List.intercalate_singleton,
          List.append_assoc]
        exact List.prefix_append _ _
    | cons next rest =>
      rw [List.cons_append, List.cons_append, List.intercalate_cons_cons,
        List.intercalate_cons_cons, List.prefix_append_right_inj, ← List.cons_append]
      exact ih (List.prefix_append _ _)

/-- A trimmed path is the beginning of the path. -/
lemma trimmed_prefix (p : Path) : p.trimmed.text.toList <+: p.text.toList := by
  have hprefix : dropIdleEnd p.opened.2 <+: p.opened.2 := List.rdropWhile_prefix isIdle p.opened.2
  have hwhole := ofOpened_opened p
  unfold trimmed
  obtain ⟨opening, segments, hopened⟩ : ∃ opening segments, p.opened = (opening, segments) :=
    ⟨_, _, rfl⟩
  rw [hopened] at hprefix hwhole ⊢
  conv_rhs => rw [← hwhole]
  cases opening with
  | root =>
    rw [toList_ofOpened_root, toList_ofOpened_root, List.cons_prefix_cons]
    exact ⟨rfl, intercalate_prefix hprefix⟩
  | here =>
    rw [toList_ofOpened_here, toList_ofOpened_here]
    exact intercalate_prefix ((List.prefix_cons_inj _).mpr hprefix)
  | plain =>
    rw [toList_ofOpened_plain, toList_ofOpened_plain]
    exact intercalate_prefix hprefix

lemma utf8ByteSize_trimmed_le (p : Path) : p.trimmed.text.utf8ByteSize ≤ p.text.utf8ByteSize := by
  obtain ⟨more, hmore⟩ := trimmed_prefix p
  have htext : p.text = p.trimmed.text ++ .ofList more := by
    rw [← String.toList_inj, String.toList_append, String.toList_ofList, hmore]
  rw [htext, String.utf8ByteSize_append]
  exact Nat.le_add_right _ _

/-! ## Above a joined path -/

/-- A path that ends in a name has nothing to be trimmed. -/
lemma trimmed_join (p : Path) (h : IsPlainName name) :
    (p.join ⟨name⟩).trimmed = p.join ⟨name⟩ := by
  obtain ⟨opening, before, idle, -, -, hjoin⟩ := opened_join p h
  have hwhole := ofOpened_opened (p.join ⟨name⟩)
  unfold trimmed
  rw [hjoin] at hwhole ⊢
  rw [dropIdleEnd_concat h.isIdle_eq, hwhole]

lemma trimmed_follow (p : Path) (hne : names ≠ []) (hn : ∀ n ∈ names, IsPlainName n) :
    (p.follow names).trimmed = p.follow names := by
  obtain ⟨front, last, rfl⟩ := (List.eq_nil_or_concat names).resolve_left hne
  rw [List.concat_eq_append, follow_concat]
  exact trimmed_join _ (hn last (by simp))

/-- Above a path that is joined with a name lies the path without its idle end. -/
theorem parent?_join (p : Path) (h : IsPlainName name) :
    (p.join ⟨name⟩).parent? = some p.trimmed := by
  obtain ⟨opening, before, idle, hidle, hp, hjoin⟩ := opened_join p h
  have hempty : ∀ segment ∈ idle, isIdle segment :=
    fun segment hs => hidle segment hs ▸ isIdle_nil
  unfold parent? properAncestors trimmed
  rw [hjoin, hp, dropIdleEnd_append_idle hempty]
  simp only [List.reverse_append, List.reverse_singleton, List.singleton_append, above,
    h.isIdle_eq, Bool.false_eq_true, if_false, List.head?_cons]
  rfl

/-- Nothing is left of a trimmed path below the path. -/
lemma relativeTo?_trimmed (hp : p.text ≠ "") : ∃ rest, p.trimmed.relativeTo? p = some rest ∧
    rest.isEmpty = true := by
  have hbelow : p.parts <+: p.trimmed.parts := ⟨[], by rw [List.append_nil, parts_trimmed hp]⟩
  obtain ⟨rest, hrest⟩ := (exists_relativeTo?_iff hp).mpr hbelow
  refine ⟨rest, hrest, ?_⟩
  obtain ⟨segments, htight, rfl⟩ := exists_isTight_of_relativeTo? hp hrest
  have hparts := parts_of_relativeTo? hp hrest
  rw [parts_trimmed hp, List.self_eq_append_right, parts_ofOpened_plain htight,
    List.filterMap_eq_nil_iff] at hparts
  rw [isEmpty_ofOpened_plain htight, decide_eq_true_eq]
  -- a first segment would be a part
  cases segments with
  | nil => rfl
  | cons first more =>
    have hidle := htight.first first rfl
    simp [isIdle, hparts first List.mem_cons_self] at hidle

end DirectoryNotes.Path
