import DirectoryNotes.Proofs.Text.Lines
import Mathlib.Data.List.Induction

/-!
# Lists with commas

What is read of a list whose items stand between commas, with blanks around them:

* `filterMap_pieces_join`: a reader that passes over the blanks around an item gets the items;
* `trimBy_blanks`, `firstWord?_blanks`: two such readers;
* `firstOccurrences_eq_eraseDups`: an item that comes again is dropped.
-/

namespace DirectoryNotes.Text

variable {p : Char → Bool} {s before after : List Char}

/-! ## Readers of an item -/

lemma trimBy_blanks (hbefore : before.all p = true) (hafter : after.all p = true) :
    trimBy p (before ++ s ++ after) = trimBy p s := by
  have hend : trimBy p (before ++ s ++ after) = trimBy p (before ++ s) := by
    induction after using List.reverseRecOn with
    | nil => rw [List.append_nil]
    | append_singleton cs c ih =>
      obtain ⟨hcs, hc⟩ : cs.all p = true ∧ p c = true := by simpa using hafter
      rw [← List.append_assoc, trimBy_concat hc]
      exact ih hcs
  rw [hend]
  unfold trimBy
  rw [List.dropWhile_append_of_pos (List.all_eq_true.mp hbefore)]

lemma trimBy_eq_nil (h : s.all p = true) : trimBy p s = [] := by
  unfold trimBy
  rw [List.dropWhile_eq_nil_iff.mpr (List.all_eq_true.mp h)]
  rfl

/-- What is trimmed begins with a character that trimming keeps. -/
lemma dropWhile_of_trimmed (h : trimBy p s = s) : s.dropWhile p = s := by
  have hfront : s <+: s.dropWhile p := by
    have hend := trimEndBy_isPrefix (p := p) (s.dropWhile p)
    rwa [← trimBy, h] at hend
  exact (hfront.eq_of_length_le (List.length_dropWhile_le p s)).symm

lemma firstWord?_blanks (hbefore : before.all isBlank = true) (hafter : after.all isBlank = true)
    (htrimmed : trimBy isBlank s = s) (hne : s ≠ []) :
    firstWord? (.ofList (before ++ s ++ after)) =
      some (.ofList (s.takeWhile (!isBlank ·))) := by
  obtain ⟨c, cs, rfl⟩ := List.exists_cons_of_ne_nil hne
  have hc : isBlank c = false := by
    have hdrop := congrArg List.head? (dropWhile_of_trimmed htrimmed)
    by_contra hblank
    have hhead := List.head?_dropWhile_not isBlank (c :: cs)
    rw [hdrop] at hhead
    simp_all
  have hafter' : after.takeWhile (!isBlank ·) = [] := by
    cases after with
    | nil => rfl
    | cons d ds => simp [List.all_eq_true.mp hafter d List.mem_cons_self]
  have hword : ((c :: cs) ++ after).takeWhile (!isBlank ·) = (c :: cs).takeWhile (!isBlank ·) := by
    rw [List.takeWhile_append]
    split
    · next hall => rw [hafter', List.append_nil, (List.takeWhile_prefix _).eq_of_length hall]
    · rfl
  unfold firstWord?
  rw [String.toList_ofList, List.append_assoc, List.dropWhile_append_of_pos (List.all_eq_true.mp hbefore),
    List.cons_append, List.dropWhile_cons_of_neg (by simp [hc]), ← List.cons_append, hword,
    List.takeWhile_cons_of_pos (by simp [hc])]

lemma firstWord?_eq_none (h : s.all isBlank = true) : firstWord? (.ofList s) = none := by
  unfold firstWord?
  rw [String.toList_ofList, List.dropWhile_eq_nil_iff.mpr (List.all_eq_true.mp h)]
  rfl

/-! ## All items -/

variable {β : Type} {read : List Char → Option β} {value : String → β} {items : List String}

/-- A list is read item by item by a reader that passes over the blanks around an item. -/
theorem filterMap_pieces_join (hbefore : before.all isBlank = true)
    (hafter : after.all isBlank = true)
    (hblank : ∀ gap : List Char, gap.all isBlank = true → read gap = none)
    (hitem : ∀ item ∈ items, ',' ∉ item.toList ∧ ∀ before after : List Char,
      before.all isBlank = true → after.all isBlank = true →
        read (before ++ item.toList ++ after) = some (value item)) :
    (pieces ',' (before ++ (join ", " items).toList ++ after)).filterMap read =
      items.map value := by
  have hno : ∀ gap : List Char, gap.all isBlank = true → ',' ∉ gap :=
    fun gap hgap hmem => absurd (List.all_eq_true.mp hgap _ hmem) (by decide)
  rw [join, String.toList_intercalate]
  induction items generalizing before with
  | nil =>
    have hgap : (before ++ after).all isBlank = true := by
      rw [List.all_append, hbefore, hafter]
      rfl
    show (pieces ',' (before ++ [] ++ after)).filterMap read = []
    rw [List.append_nil, pieces_of_notMem (hno _ hgap), List.filterMap_cons, hblank _ hgap]
    rfl
  | cons item items ih =>
    obtain ⟨⟨hcomma, hread⟩, hitems⟩ := List.forall_mem_cons.mp hitem
    cases items with
    | nil =>
      have hnone : ',' ∉ before ++ item.toList ++ after := by
        simp [hno before hbefore, hcomma, hno after hafter]
      rw [List.map_singleton, List.intercalate_singleton, pieces_of_notMem hnone,
        List.filterMap_cons, hread before after hbefore hafter]
      rfl
    | cons next items =>
      have hnone : ',' ∉ before ++ item.toList := by
        simp [hno before hbefore, hcomma]
      have hone := hread before [] hbefore rfl
      rw [List.append_nil] at hone
      rw [List.map_cons, List.map_cons, List.intercalate_cons_cons, ← List.map_cons]
      have hsplit : before ++ (item.toList ++ ", ".toList ++
          (", ".toList).intercalate ((next :: items).map String.toList)) ++ after =
          (before ++ item.toList) ++ ',' :: ([' '] ++
            (", ".toList).intercalate ((next :: items).map String.toList) ++ after) := by
        simp only [List.append_assoc]
        rfl
      rw [hsplit, pieces_append_cons, pieces_of_notMem hnone, List.singleton_append,
        List.filterMap_cons, hone, ih (by decide) hitems]
      rfl

lemma firstOccurrences_eq_eraseDups {α : Type} [BEq α] [LawfulBEq α] (xs : List α) :
    firstOccurrences xs = xs.eraseDups := by
  have hfold : ∀ kept : List α,
      xs.foldl (fun kept x => if kept.contains x then kept else kept ++ [x]) kept =
        kept ++ (xs.filter (!kept.contains ·)).eraseDups := by
    induction xs with
    | nil => simp
    | cons x xs ih =>
      intro kept
      rw [List.foldl_cons, ih]
      split
      · next hx => rw [List.filter_cons_of_neg (by simp_all)]
      · next hx =>
        have hfilter : (fun y => !(kept ++ [x]).contains y) =
            fun y => (!(y == x)) && !kept.contains y := by
          funext y
          rw [List.contains_append, Bool.not_or, Bool.and_comm]
          simp
        rw [List.filter_cons_of_pos (by simp_all), List.eraseDups_cons, List.filter_filter,
          List.append_assoc, List.singleton_append, hfilter]
  unfold firstOccurrences
  rw [hfold []]
  simp

end DirectoryNotes.Text
