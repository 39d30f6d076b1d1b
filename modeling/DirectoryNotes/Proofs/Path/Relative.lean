import DirectoryNotes.Proofs.Path.Below
import Mathlib.Data.List.DropRight

/-!
# Relative paths as they are left

What is left of a path after a directory in front is taken off is written as it was: repeated slashes
and the part `.` may stand inside, though not at the ends.

* `Path.IsTight`: the segments of such a path. `exists_isTight_of_relativeTo?` says that all that is
  left has them, and `opened_ofOpened_plain` reads them back;
* `exists_isTight_parent`: the path above one keeps this form, and loses one part;
* `parts_of_relativeTo?`, `exists_relativeTo?_iff`: a path lies below another exactly if the parts of
  that one come first in it, and what is left has the other parts;
* `parts_join`: joining puts the parts of both together, and `relativeTo?_join` takes the first off
  again;
* `exists_names`: a path that goes nowhere upward is made of names.
-/

namespace DirectoryNotes.Path

variable {p q base rest : Path} {segments left : List (List Char)} {parts : List PathPart}

/-! ## Segments without idle ends -/

/-- Segments with no slash in any of them, and none that is idle at either end. -/
structure IsTight (segments : List (List Char)) : Prop where
  no_slash : ∀ segment ∈ segments, '/' ∉ segment
  first : ∀ segment, segments.head? = some segment → isIdle segment = false
  last : ∀ segment, segments.getLast? = some segment → isIdle segment = false

lemma isTight_nil : IsTight [] := ⟨by simp, by simp, by simp⟩

lemma dropIdleEnd_eq_rdropWhile (segments : List (List Char)) :
    dropIdleEnd segments = segments.rdropWhile isIdle := rfl

lemma isIdle_of_getLast?_dropIdleEnd {segment : List Char}
    (h : (dropIdleEnd segments).getLast? = some segment) : isIdle segment = false := by
  rw [dropIdleEnd_eq_rdropWhile] at h
  have hne : segments.rdropWhile isIdle ≠ [] := by
    intro hnil
    rw [hnil] at h
    cases h
  have hlast := List.rdropWhile_last_not isIdle segments hne
  rw [List.getLast?_eq_some_getLast hne, Option.some.injEq] at h
  rwa [h, Bool.not_eq_true] at hlast

/-- What begins without an idle segment does so too after the idle end is taken off. -/
lemma isTight_dropIdleEnd (hslash : ∀ segment ∈ segments, '/' ∉ segment)
    (hfirst : ∀ segment, segments.head? = some segment → isIdle segment = false) :
    IsTight (dropIdleEnd segments) where
  no_slash segment hs := by
    rw [dropIdleEnd_eq_rdropWhile] at hs
    exact hslash segment ((List.rdropWhile_prefix isIdle segments).subset hs)
  first segment hs := by
    rw [dropIdleEnd_eq_rdropWhile] at hs
    obtain ⟨more, hmore⟩ := List.rdropWhile_prefix isIdle segments
    refine hfirst segment ?_
    rw [← hmore, List.head?_append, hs]
    rfl
  last segment hs := isIdle_of_getLast?_dropIdleEnd hs

lemma filterMap_dropIdleEnd (segments : List (List Char)) :
    (dropIdleEnd segments).filterMap PathPart.ofSegment? =
      segments.filterMap PathPart.ofSegment? := by
  induction segments using List.reverseRecOn with
  | nil => rfl
  | append_singleton front last ih =>
    rw [dropIdleEnd_eq_rdropWhile, List.rdropWhile_concat]
    split
    · next hidle =>
      have hnone : PathPart.ofSegment? last = none := by simpa [isIdle] using hidle
      rw [← dropIdleEnd_eq_rdropWhile, ih, List.filterMap_append,
        List.filterMap_cons_none hnone, List.filterMap_nil, List.append_nil]
    · rfl

/-! ## Reading segments back -/

lemma intercalate_sublist {xs ys : List (List Char)} (h : xs.Sublist ys) :
    (List.intercalate ['/'] xs).Sublist (List.intercalate ['/'] ys) := by
  induction h with
  | slnil => exact List.Sublist.refl _
  | @cons xs ys y hsub ih =>
    by_cases hys : ys = []
    · rw [hys, List.sublist_nil] at hsub
      rw [hsub]
      exact List.nil_sublist _
    · rw [List.intercalate_cons_of_ne_nil hys]
      exact ih.trans (List.sublist_append_right _ _)
  | @cons_cons xs ys x hsub ih =>
    by_cases hxs : xs = []
    · by_cases hys : ys = []
      · rw [hxs, hys]
      · rw [hxs, List.intercalate_singleton, List.intercalate_cons_of_ne_nil hys, List.append_assoc]
        exact List.sublist_append_left _ _
    · have hys : ys ≠ [] := fun hys => hxs (List.sublist_nil.mp (hys ▸ hsub))
      rw [List.intercalate_cons_of_ne_nil hxs, List.intercalate_cons_of_ne_nil hys]
      exact ih.append_left _

lemma toList_ofOpened_plain (segments : List (List Char)) :
    (ofOpened .plain segments).text.toList = List.intercalate ['/'] segments := by
  simp [ofOpened, Opening.text]

lemma pieces_ofOpened_plain (h : IsTight segments) (hne : segments ≠ []) :
    Text.pieces '/' (ofOpened .plain segments).text.toList = segments := by
  rw [toList_ofOpened_plain, Text.pieces_intercalate hne h.no_slash]

section
variable (h : IsTight segments)
include h

lemma opened_ofOpened_plain (hne : segments ≠ []) :
    (ofOpened .plain segments).opened = (.plain, segments) := by
  obtain ⟨first, rest, rfl⟩ := List.exists_cons_of_ne_nil hne
  have hidle := h.first first rfl
  have hpieces := pieces_ofOpened_plain h hne
  have hslash : '/' ∉ first := h.no_slash first List.mem_cons_self
  have hhere : first ≠ ['.'] := by
    rintro rfl
    cases hidle
  cases first with
  | nil => cases hidle
  | cons c cs =>
    have hc : c ≠ '/' := fun heq => hslash (heq ▸ List.mem_cons_self)
    have hhead : (ofOpened .plain ((c :: cs) :: rest)).text.toList.head? ≠ some '/' := by
      rw [toList_ofOpened_plain]
      cases rest with
      | nil => simpa using hc
      | cons next more => simpa [List.intercalate_cons_cons] using hc
    rw [opened_of_other hhead hpieces, if_neg hhere]

lemma parts_ofOpened_plain :
    (ofOpened .plain segments).parts = segments.filterMap PathPart.ofSegment? := by
  by_cases hne : segments = []
  · subst hne
    decide
  · simp only [parts, opened_ofOpened_plain h hne, Opening.parts, List.nil_append]

lemma isAbsolute_ofOpened_plain : (ofOpened .plain segments).isAbsolute = false := by
  by_cases hne : segments = []
  · subst hne
    decide
  · cases habsolute : (ofOpened .plain segments).isAbsolute with
    | false => rfl
    | true =>
      -- a leading slash would be the opening
      have hhead : (ofOpened .plain segments).text.toList.head? = some '/' := by
        simpa [isAbsolute] using habsolute
      obtain ⟨rest, hrest⟩ := List.head?_eq_some_iff.mp hhead
      have hopened := opened_ofOpened_plain h hne
      rw [opened_of_root hrest] at hopened
      cases hopened

lemma isEmpty_ofOpened_plain : (ofOpened .plain segments).isEmpty = decide (segments = []) := by
  by_cases hne : segments = []
  · subst hne
    decide
  · have htext : (ofOpened .plain segments).text ≠ "" := by
      intro hempty
      have hopened := opened_ofOpened_plain h hne
      have hpath : ofOpened .plain segments = ⟨""⟩ := congrArg Path.mk hempty
      rw [hpath] at hopened
      obtain rfl : [[]] = segments := congrArg Prod.snd hopened
      cases h.first [] rfl
    simpa [isEmpty, hne, String.isEmpty_iff] using htext

/-- Above a relative path lies one without its last part; nothing lies above the empty one. -/
lemma exists_isTight_parent : ∃ above, IsTight above ∧
    ((ofOpened .plain segments).parent?.getD ⟨""⟩) = ofOpened .plain above ∧
      above.filterMap PathPart.ofSegment? =
        (segments.filterMap PathPart.ofSegment?).dropLast := by
  rcases List.eq_nil_or_concat segments with rfl | ⟨front, last, rfl⟩
  · exact ⟨[], isTight_nil, by decide, rfl⟩
  · rw [List.concat_eq_append] at h ⊢
    have hidle : isIdle last = false := h.last last (by simp)
    have hfront : ∀ segment ∈ front, '/' ∉ segment :=
      fun segment hs => h.no_slash segment (List.mem_append_left _ hs)
    have hfirst : ∀ segment, front.head? = some segment → isIdle segment = false := by
      intro segment hs
      refine h.first segment ?_
      rw [List.head?_append, hs]
      rfl
    refine ⟨dropIdleEnd front, isTight_dropIdleEnd hfront hfirst, ?_, ?_⟩
    · unfold parent? properAncestors
      rw [opened_ofOpened_plain h (by simp), List.reverse_append, List.reverse_singleton,
        List.singleton_append, Path.above]
      simp only [hidle, Bool.false_eq_true, if_false, List.head?_cons, Option.getD_some]
      rfl
    · obtain ⟨part, hpart⟩ : ∃ part, PathPart.ofSegment? last = some part :=
        Option.isSome_iff_exists.mp (by simpa [isIdle] using hidle)
      rw [filterMap_dropIdleEnd, List.filterMap_append, List.filterMap_cons_some hpart,
        List.filterMap_nil, List.dropLast_concat]

omit h in
/-- A segment that is neither idle nor a step up is a name. -/
lemma exists_name_of_segment {segment : List Char} (hslash : '/' ∉ segment)
    (hidle : isIdle segment = false) (hup : PathPart.ofSegment? segment ≠ some .up) :
    ∃ name : String, IsPlainName name ∧ segment = name.toList := by
  refine ⟨.ofList segment, ?_, String.toList_ofList.symm⟩
  have hempty : segment ≠ [] := by
    rintro rfl
    cases hidle
  have hhere : segment ≠ ['.'] := by
    rintro rfl
    cases hidle
  have hup' : segment ≠ ['.', '.'] := by
    rintro rfl
    exact hup rfl
  have htext : ∀ text : String, String.ofList segment = text → segment = text.toList := by
    intro text heq
    rw [← heq, String.toList_ofList]
  constructor
  case ne_empty => exact fun heq => hempty (htext _ heq)
  case ne_here => exact fun heq => hhere (htext _ heq)
  case ne_up => exact fun heq => hup' (htext _ heq)
  case no_slash => rwa [String.toList_ofList]

/-- A relative path that goes nowhere upward is made of names, with idle segments between them. -/
lemma exists_names (hup : .up ∉ segments.filterMap PathPart.ofSegment?) :
    ∃ names : List String, (∀ n ∈ names, IsPlainName n) ∧
      segments.filterMap PathPart.ofSegment? = names.map .name ∧
      segments.filter (!isIdle ·) = names.map String.toList := by
  have hslash := h.no_slash
  clear h
  induction segments with
  | nil => exact ⟨[], by simp, rfl, rfl⟩
  | cons segment rest ih =>
    have hrest : ∀ s ∈ rest, '/' ∉ s := fun s hs => hslash s (List.mem_cons_of_mem _ hs)
    by_cases hidle : isIdle segment = true
    · have hnone : PathPart.ofSegment? segment = none := by simpa [isIdle] using hidle
      rw [List.filterMap_cons_none hnone] at hup ⊢
      rw [List.filter_cons_of_neg (by simpa using hidle)]
      exact ih hup hrest
    · rw [Bool.not_eq_true] at hidle
      have hstep : PathPart.ofSegment? segment ≠ some .up := by
        intro hstep
        rw [List.filterMap_cons_some hstep] at hup
        exact hup List.mem_cons_self
      obtain ⟨name, hname, rfl⟩ :=
        exists_name_of_segment (hslash segment List.mem_cons_self) hidle hstep
      rw [List.filterMap_cons_some hname.ofSegment?_eq] at hup ⊢
      rw [List.filter_cons_of_pos (by simp [hidle])]
      obtain ⟨names, hnames, hparts, hsegments⟩ :=
        ih (fun hmem => hup (List.mem_cons_of_mem _ hmem)) hrest
      refine ⟨name :: names, ?_, by rw [hparts, List.map_cons], by rw [hsegments, List.map_cons]⟩
      intro n hn
      rcases List.mem_cons.mp hn with rfl | hn
      · exact hname
      · exact hnames n hn

/-- A path continued by segments has the characters of the path continued by the names among them. -/
lemma follow_sublist_join (p : Path) {names : List String} (hn : ∀ n ∈ names, IsPlainName n)
    (hnames : segments.filter (!isIdle ·) = names.map String.toList) :
    (p.follow names).text.toList.Sublist (p.join (ofOpened .plain segments)).text.toList := by
  rw [join_toList p (isAbsolute_ofOpened_plain h), List.append_assoc]
  by_cases hne : names = []
  · rw [hne, follow_nil]
    exact List.sublist_append_left _ _
  · rw [← join_ofNames p hne hn, join_toList p (isAbsolute_ofNames hn), List.append_assoc,
      List.append_sublist_append_left, List.append_sublist_append_left, ofNames_toList,
      toList_ofOpened_plain, ← hnames]
    exact intercalate_sublist List.filter_sublist

end

/-! ## What is left -/

lemma suffix_of_dropParts (h : dropParts parts segments = some left) : left <:+ segments := by
  induction segments generalizing parts with
  | nil =>
    cases parts with
    | nil =>
      obtain rfl := Option.some.inj h
      exact List.suffix_refl _
    | cons part rest => cases h
  | cons segment segments ih =>
    cases parts with
    | nil =>
      obtain rfl := Option.some.inj h
      exact List.suffix_refl _
    | cons part rest =>
      rw [dropParts] at h
      split at h
      · exact (ih h).trans (List.suffix_cons segment segments)
      · split at h
        · exact (ih h).trans (List.suffix_cons segment segments)
        · cases h

lemma notMem_of_mem_opened {segment : List Char} (h : segment ∈ p.opened.2) : '/' ∉ segment := by
  unfold opened at h
  split at h
  · exact Text.notMem_of_mem_pieces h
  · split at h
    · next rest heq =>
      refine Text.notMem_of_mem_pieces (s := p.text.toList) ?_
      rw [heq]
      exact List.mem_cons_of_mem _ h
    · exact Text.notMem_of_mem_pieces h

/-- What is left after parts are taken off the front has the other parts. -/
lemma parts_of_dropParts (h : dropParts parts segments = some left) :
    segments.filterMap PathPart.ofSegment? = parts ++ left.filterMap PathPart.ofSegment? := by
  induction segments generalizing parts with
  | nil =>
    cases parts with
    | nil =>
      obtain rfl := Option.some.inj h
      rfl
    | cons part rest => cases h
  | cons segment segments ih =>
    cases parts with
    | nil =>
      obtain rfl := Option.some.inj h
      rfl
    | cons part rest =>
      rw [dropParts] at h
      split at h
      · next hs => rw [List.filterMap_cons_none hs, ih h]
      · next other hs =>
        split at h
        · next heq => rw [List.filterMap_cons_some hs, ih h, heq, List.cons_append]
        · cases h

/-- Parts that come first can be taken off. -/
lemma exists_dropParts (h : parts <+: segments.filterMap PathPart.ofSegment?) :
    ∃ left, dropParts parts segments = some left := by
  induction segments generalizing parts with
  | nil =>
    obtain rfl : parts = [] := by simpa using h
    exact ⟨[], rfl⟩
  | cons segment segments ih =>
    cases parts with
    | nil => exact ⟨segment :: segments, rfl⟩
    | cons part rest =>
      cases hs : PathPart.ofSegment? segment with
      | none =>
        rw [List.filterMap_cons_none hs] at h
        obtain ⟨left, hleft⟩ := ih h
        exact ⟨left, by rw [dropParts, hs]; exact hleft⟩
      | some other =>
        rw [List.filterMap_cons_some hs, List.cons_prefix_cons] at h
        obtain ⟨left, hleft⟩ := ih h.2
        exact ⟨left, by rw [dropParts, hs]; simpa [h.1] using hleft⟩

/-- A path is taken from another that opens in the same way, or has no opening to compare. -/
lemma relativeTo?_eq_some_iff (hbase : base.text ≠ "") :
    p.relativeTo? base = some rest ↔
      ∃ parts, base.parts = p.opened.1.parts ++ parts ∧
        relativeTo?.rest parts p.opened.2 = some rest := by
  obtain ⟨first, more, hfirst⟩ := List.exists_cons_of_ne_nil (parts_ne_nil hbase)
  unfold relativeTo?
  rw [hfirst]
  generalize p.opened = opened
  obtain ⟨opening, segments⟩ := opened
  -- the opening stands for one part at most, which is compared with the first part of the base
  cases opening <;> cases first <;> simp [Opening.parts]

/-- What is left of the segments after parts at the front has segments without idle ends. -/
lemma exists_isTight_of_rest (hslash : ∀ segment ∈ segments, '/' ∉ segment)
    (h : relativeTo?.rest parts segments = some rest) :
    ∃ tight, IsTight tight ∧ rest = ofOpened .plain tight ∧
      segments.filterMap PathPart.ofSegment? = parts ++ tight.filterMap PathPart.ofSegment? := by
  rw [relativeTo?.rest] at h
  obtain ⟨left, hleft, rfl⟩ := Option.map_eq_some_iff.mp h
  refine ⟨_, isTight_dropIdleEnd ?_ ?_, rfl, ?_⟩
  · intro segment hs
    have hmem := (List.dropWhile_suffix isIdle).subset hs
    exact hslash segment ((suffix_of_dropParts hleft).subset hmem)
  · intro segment hs
    have hfirst := List.head?_dropWhile_not isIdle left
    rw [hs] at hfirst
    exact hfirst
  · have hidle : (left.takeWhile isIdle).filterMap PathPart.ofSegment? = [] :=
      filterMap_ofSegment?_idle fun segment hs => List.mem_takeWhile_imp hs
    have hsplit := congrArg (List.filterMap PathPart.ofSegment?)
      (@List.takeWhile_append_dropWhile _ isIdle left)
    rw [List.filterMap_append, hidle, List.nil_append] at hsplit
    rw [filterMap_dropIdleEnd, hsplit, parts_of_dropParts hleft]

/-- What is left of a path below another has segments without idle ends. -/
lemma exists_isTight_of_relativeTo? (hbase : base.text ≠ "") (h : p.relativeTo? base = some rest) :
    ∃ segments, IsTight segments ∧ rest = ofOpened .plain segments := by
  obtain ⟨parts, -, hrest⟩ := (relativeTo?_eq_some_iff hbase).mp h
  obtain ⟨segments, htight, rfl, -⟩ :=
    exists_isTight_of_rest (fun _ hs => notMem_of_mem_opened hs) hrest
  exact ⟨segments, htight, rfl⟩

/-- A path below another has the parts of that one, and then those that are left. -/
theorem parts_of_relativeTo? (hbase : base.text ≠ "") (h : p.relativeTo? base = some rest) :
    p.parts = base.parts ++ rest.parts := by
  obtain ⟨parts, hparts, hrest⟩ := (relativeTo?_eq_some_iff hbase).mp h
  obtain ⟨segments, htight, rfl, hsegments⟩ :=
    exists_isTight_of_rest (fun _ hs => notMem_of_mem_opened hs) hrest
  rw [hparts, parts_ofOpened_plain htight, List.append_assoc, ← hsegments]
  rfl

/-- Something is left of a path below another exactly if the parts of that one come first in it. -/
theorem exists_relativeTo?_iff (hbase : base.text ≠ "") :
    (∃ rest, p.relativeTo? base = some rest) ↔ base.parts <+: p.parts := by
  constructor
  · rintro ⟨rest, h⟩
    exact ⟨rest.parts, (parts_of_relativeTo? hbase h).symm⟩
  · intro h
    have hsplit : p.parts = p.opened.1.parts ++ p.opened.2.filterMap PathPart.ofSegment? := rfl
    -- the opening is at most one part, and the base has at least one
    obtain ⟨parts, hparts⟩ : ∃ parts, base.parts = p.opened.1.parts ++ parts := by
      obtain ⟨first, more, hfirst⟩ := List.exists_cons_of_ne_nil (parts_ne_nil hbase)
      rw [hfirst, hsplit] at h
      cases ho : p.opened.1 with
      | plain => exact ⟨base.parts, rfl⟩
      | root =>
        rw [ho] at h
        obtain ⟨rfl, -⟩ := List.cons_prefix_cons.mp h
        exact ⟨more, hfirst⟩
      | here =>
        rw [ho] at h
        obtain ⟨rfl, -⟩ := List.cons_prefix_cons.mp h
        exact ⟨more, hfirst⟩
    rw [hparts, hsplit, List.prefix_append_right_inj] at h
    obtain ⟨left, hleft⟩ := exists_dropParts h
    have hrest : relativeTo?.rest parts p.opened.2 =
        some (ofOpened .plain (dropIdleEnd (left.dropWhile isIdle))) := by
      rw [relativeTo?.rest, hleft, Option.map_some]
    exact ⟨_, (relativeTo?_eq_some_iff hbase).mpr ⟨parts, hparts, hrest⟩⟩

lemma relativeTo?_eq_none_iff (hbase : base.text ≠ "") :
    p.relativeTo? base = none ↔ ¬base.parts <+: p.parts := by
  rw [← exists_relativeTo?_iff hbase, ← Option.isSome_iff_exists, Option.not_isSome_iff_eq_none]

/-! ## Joining -/

/-- Joining puts the parts of a relative path after those of the first. -/
lemma parts_join (hp : p.text ≠ "") (hq : q.isAbsolute = false) :
    (p.join q).parts = p.parts ++
      (Text.pieces '/' q.text.toList).filterMap PathPart.ofSegment? := by
  obtain ⟨opening, before, idle, hidle, h1, h2⟩ := opened_join_of_ne_empty hp hq
  have hnone : idle.filterMap PathPart.ofSegment? = [] :=
    filterMap_ofSegment?_idle fun segment hs => hidle segment hs ▸ isIdle_nil
  simp only [parts, h1, h2, List.filterMap_append, hnone, List.append_nil, List.append_assoc]

/-- What is left of a joined path is the second, without what stands for no part at its ends. -/
lemma relativeTo?_join (hp : p.text ≠ "") (hq : q.isAbsolute = false) :
    (p.join q).relativeTo? p =
      some (ofOpened .plain (dropIdleEnd ((Text.pieces '/' q.text.toList).dropWhile isIdle))) := by
  obtain ⟨opening, before, idle, hidle, h1, h2⟩ := opened_join_of_ne_empty hp hq
  have hnone : idle.filterMap PathPart.ofSegment? = [] :=
    filterMap_ofSegment?_idle fun segment hs => hidle segment hs ▸ isIdle_nil
  have hparts : p.parts = opening.parts ++ before.filterMap PathPart.ofSegment? := by
    simp only [parts, h1, List.filterMap_append, hnone, List.append_nil]
  obtain ⟨front, hfront, hdrop⟩ := dropParts_append before (Text.pieces '/' q.text.toList)
  refine (relativeTo?_eq_some_iff hp).mpr ⟨before.filterMap PathPart.ofSegment?, ?_, ?_⟩
  · rw [h2, hparts]
  · rw [h2, relativeTo?.rest, hdrop, Option.map_some, List.dropWhile_append_of_pos hfront]

end DirectoryNotes.Path
