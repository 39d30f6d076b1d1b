import DirectoryNotes.Proofs.Path.Below
import DirectoryNotes.Text
import Mathlib.Data.List.Basic
import Mathlib.Data.List.TakeWhile

/-!
# Lines of texts that are put together

Where two texts meet, the last piece of the first and the first piece of the second become one:

* `pieces_append`: the pieces of two texts together;
* `lines_append_cons`, `lines_rows`, `split_rows`: the lines of a text that has line ends at known
  places;
* `exists_line_of_not_blank`: a text that says something has a line that does;
* `trimBy_dropCarriageReturn`: a carriage return at the end does not matter to trimming;
* `newline_notMem_toString`, `newline_notMem_firstWord`: texts that are one line.
-/

namespace DirectoryNotes.Text

variable {p : Char → Bool} {s a b : List Char}

/-! ## Pieces -/

/-- The pieces of two texts together: those of each, but for the two that meet. -/
lemma pieces_append (sep : Char) (a b : List Char) :
    ∃ last first, (pieces sep a).getLast? = some last ∧ (pieces sep b).head? = some first ∧
      pieces sep (a ++ b) = (pieces sep a).dropLast ++ (last ++ first) :: (pieces sep b).tail := by
  induction a with
  | nil =>
    obtain ⟨first, rest, hb⟩ := List.exists_cons_of_ne_nil (pieces_ne_nil sep b)
    exact ⟨[], first, rfl, by rw [hb]; rfl, by simp [hb, pieces]⟩
  | cons c cs ih =>
    obtain ⟨last, first, hlast, hfirst, heq⟩ := ih
    obtain ⟨head, tail, hcs⟩ := List.exists_cons_of_ne_nil (pieces_ne_nil sep cs)
    rw [List.cons_append, pieces, pieces, heq, hcs]
    rw [hcs] at hlast
    by_cases hc : c = sep
    · simp only [hc, if_true]
      exact ⟨last, first, by rw [List.getLast?_cons_cons]; exact hlast, hfirst, by simp⟩
    · simp only [hc, if_false]
      -- the character goes in front of the first piece, which may be the last one too
      cases tail with
      | nil =>
        obtain rfl : head = last := by simpa using hlast
        exact ⟨c :: head, first, rfl, hfirst, by simp⟩
      | cons next more =>
        rw [List.getLast?_cons_cons] at hlast
        exact ⟨last, first, by rw [List.getLast?_cons_cons]; exact hlast, hfirst, by simp⟩

/-- What stands in parts that are joined stands in one of them or in the separator. -/
lemma mem_join {c : Char} {sep : String} {parts : List String} (h : c ∈ (join sep parts).toList) :
    c ∈ sep.toList ∨ ∃ part ∈ parts, c ∈ part.toList := by
  rw [join, String.toList_intercalate] at h
  induction parts with
  | nil => simp at h
  | cons part rest ih =>
    cases rest with
    | nil => exact .inr ⟨part, List.mem_cons_self, by simpa using h⟩
    | cons next more =>
      rw [List.map_cons, List.map_cons, List.intercalate_cons_cons, List.mem_append,
        List.mem_append] at h
      rcases h with (h | h) | h
      · exact .inr ⟨part, List.mem_cons_self, h⟩
      · exact .inl h
      · exact (ih h).imp_right fun ⟨other, hother, hc⟩ =>
          ⟨other, List.mem_cons_of_mem _ hother, hc⟩

/-! ## Lines -/

lemma dropCarriageReturn_append (a : List Char) (hb : b ≠ []) :
    dropCarriageReturn (a ++ b) = a ++ dropCarriageReturn b := by
  unfold dropCarriageReturn
  rw [List.getLast?_append_of_ne_nil _ hb, List.dropLast_append_of_ne_nil hb]
  split <;> rfl

/-- A line feed ends the lines before it. -/
lemma lines_append_cons (a b : List Char) :
    lines (a ++ '\n' :: b) = (pieces '\n' a).map dropCarriageReturn ++ lines b := by
  have hb := pieces_ne_nil '\n' b
  simp only [lines, pieces_append_cons]
  rw [List.getLast?_append_of_ne_nil _ hb, List.dropLast_append_of_ne_nil hb, List.map_append,
    List.append_assoc]

lemma lines_row (ha : '\n' ∉ a) (b : List Char) :
    lines (a ++ '\n' :: b) = dropCarriageReturn a :: lines b := by
  rw [lines_append_cons, pieces_of_notMem ha]
  rfl

/-- Rows with a line feed after each are lines. -/
lemma lines_rows {rows : List (List Char)} (hrows : ∀ row ∈ rows, '\n' ∉ row) (b : List Char) :
    lines (rows.flatMap (· ++ ['\n']) ++ b) = rows.map dropCarriageReturn ++ lines b := by
  induction rows with
  | nil => rfl
  | cons row rest ih =>
    rw [List.flatMap_cons, List.append_assoc, List.append_assoc, List.singleton_append,
      lines_row (hrows row List.mem_cons_self),
      ih fun r hr => hrows r (List.mem_cons_of_mem _ hr)]
    rfl

lemma pieces_rows {rows : List (List Char)} (hrows : ∀ row ∈ rows, '\n' ∉ row) (b : List Char) :
    pieces '\n' (rows.flatMap (· ++ ['\n']) ++ b) = rows ++ pieces '\n' b := by
  induction rows with
  | nil => rfl
  | cons row rest ih =>
    rw [List.flatMap_cons, List.append_assoc, List.append_assoc, List.singleton_append,
      pieces_append_cons, pieces_of_notMem (hrows row List.mem_cons_self),
      ih fun r hr => hrows r (List.mem_cons_of_mem _ hr)]
    rfl

lemma toList_join_rows (rows : List String) : (String.join (rows.map (· ++ "\n"))).toList =
    (rows.map String.toList).flatMap (· ++ ['\n']) := by
  rw [String.toList_join, List.flatMap_map, List.flatMap_map]
  refine List.flatMap_congr fun row _ => ?_
  rw [String.toList_append]
  rfl

/-- Rows that are written with a line feed after each can be told apart. -/
lemma split_rows {rows : List String} (hrows : ∀ row ∈ rows, '\n' ∉ row.toList) :
    split '\n' (String.join (rows.map (· ++ "\n"))) = rows ++ [""] := by
  have hchars : ∀ row ∈ rows.map String.toList, '\n' ∉ row := by
    intro chars hmem
    obtain ⟨row, hrow, rfl⟩ := List.mem_map.mp hmem
    exact hrows row hrow
  have hpieces := pieces_rows hchars []
  rw [List.append_nil] at hpieces
  rw [split, toList_join_rows, hpieces]
  simp [pieces]

/-- A piece that is not empty is a line, with or without its carriage return. -/
lemma mem_lines_of_mem_pieces {piece : List Char} (h : piece ∈ pieces '\n' s) (hne : piece ≠ []) :
    dropCarriageReturn piece ∈ lines s ∨ piece ∈ lines s := by
  obtain ⟨last, hlast⟩ : ∃ last, (pieces '\n' s).getLast? = some last :=
    Option.isSome_iff_exists.mp (by simpa using pieces_ne_nil '\n' s)
  simp only [lines, hlast]
  rw [← List.dropLast_append_getLast? last hlast, List.mem_append, List.mem_singleton] at h
  rcases h with hfront | rfl
  · exact .inl (List.mem_append_left _ (List.mem_map_of_mem hfront))
  · refine .inr (List.mem_append_right _ ?_)
    rw [Option.getD_some, if_neg hne]
    exact List.mem_singleton.mpr rfl

lemma newline_notMem_of_mem_lines {line : List Char} (h : line ∈ lines s) : '\n' ∉ line := by
  have hlast : (pieces '\n' s).getLast?.getD [] ∈ pieces '\n' s := by
    rw [List.getLast?_eq_some_getLast (pieces_ne_nil '\n' s)]
    exact List.getLast_mem _
  rcases List.mem_append.mp h with hmem | hmem
  · obtain ⟨piece, hpiece, rfl⟩ := List.mem_map.mp hmem
    have hnone := notMem_of_mem_pieces (List.dropLast_subset _ hpiece)
    unfold dropCarriageReturn
    split
    · exact fun hc => hnone (List.dropLast_subset _ hc)
    · exact hnone
  · split at hmem
    · cases hmem
    · rw [List.mem_singleton.mp hmem]
      exact notMem_of_mem_pieces hlast

/-- A text that says something has a line that does. -/
lemma exists_line_of_not_blank {text : String} (h : isBlankText text = false) :
    ∃ line ∈ linesOf text, isBlankText line = false := by
  obtain ⟨c, hc, hblank⟩ : ∃ c ∈ text.toList, isBlank c = false := by
    simpa [isBlankText] using h
  have hjoin : join "\n" ((pieces '\n' text.toList).map String.ofList) = text := by
    rw [join, ← String.toList_inj, String.toList_intercalate, List.map_map, pieces_eq_splitOn]
    simp [Function.comp_def]
  rw [← hjoin] at hc
  rcases mem_join hc with hc | ⟨part, hpart, hc⟩
  · obtain rfl : c = '\n' := by simpa using hc
    cases hblank
  · obtain ⟨piece, hpiece, rfl⟩ := List.mem_map.mp hpart
    rw [String.toList_ofList] at hc
    have hreturn : c ≠ '\r' := by
      rintro rfl
      cases hblank
    have hspeaks : ∀ line ∈ lines text.toList, c ∈ line →
        ∃ line ∈ linesOf text, isBlankText line = false := by
      intro line hline hmem
      refine ⟨.ofList line, List.mem_map_of_mem hline, ?_⟩
      rw [isBlankText, String.toList_ofList, List.all_eq_false]
      exact ⟨c, hmem, by simp [hblank]⟩
    rcases mem_lines_of_mem_pieces hpiece (List.ne_nil_of_mem hc) with hline | hline
    · refine hspeaks _ hline ?_
      unfold dropCarriageReturn
      split
      · next hlast =>
        obtain ⟨front, rfl⟩ := List.getLast?_eq_some_iff.mp hlast
        rw [List.dropLast_concat]
        simpa [hreturn] using hc
      · exact hc
    · exact hspeaks _ hline hc

/-! ## Trimming -/

lemma trimEndBy_concat {c : Char} (hc : p c = true) (s : List Char) :
    trimEndBy p (s ++ [c]) = trimEndBy p s := by
  simp [trimEndBy, hc]

lemma trimBy_concat {c : Char} (hc : p c = true) (s : List Char) :
    trimBy p (s ++ [c]) = trimBy p s := by
  unfold trimBy
  by_cases hs : s.dropWhile p = []
  · -- the whole text is cut off
    have hall : ∀ x ∈ s, p x = true := by simpa using hs
    rw [List.dropWhile_append_of_pos hall, hs]
    simp [hc]
  · obtain ⟨x, rest, hx⟩ := List.exists_cons_of_ne_nil hs
    rw [List.dropWhile_append, hx]
    simpa using trimEndBy_concat hc (x :: rest)

/-- A carriage return at the end of a line is trimmed anyway. -/
lemma trimBy_dropCarriageReturn (s : List Char) :
    trimBy isBlank (dropCarriageReturn s) = trimBy isBlank s := by
  unfold dropCarriageReturn
  split
  · next hlast =>
    obtain ⟨front, rfl⟩ := List.getLast?_eq_some_iff.mp hlast
    rw [List.dropLast_concat, trimBy_concat (by decide)]
  · rfl

/-- Trimming takes off no character outside the class. -/
lemma count_trimBy {c : Char} (hc : p c = false) (s : List Char) :
    (trimBy p s).count c = s.count c := by
  have hdrop : ∀ xs : List Char, (xs.dropWhile p).count c = xs.count c := by
    intro xs
    have htaken : (xs.takeWhile p).count c = 0 := by
      rw [List.count_eq_zero]
      intro hmem
      rw [List.mem_takeWhile_imp hmem] at hc
      cases hc
    conv_rhs => rw [← List.takeWhile_append_dropWhile (p := p) (l := xs), List.count_append, htaken,
      Nat.zero_add]
  rw [trimBy, trimEndBy, List.count_reverse, hdrop, List.count_reverse, hdrop]

lemma mem_trimBy_iff {c : Char} (hc : p c = false) : c ∈ trimBy p s ↔ c ∈ s := by
  rw [← List.count_pos_iff, count_trimBy hc, List.count_pos_iff]

lemma trimBy_eq_self (h : ∀ c ∈ s, p c = false) : trimBy p s = s := by
  have hdrop : ∀ xs : List Char, (∀ c ∈ xs, p c = false) → xs.dropWhile p = xs := by
    intro xs hxs
    cases xs with
    | nil => rfl
    | cons c xs => rw [List.dropWhile_cons_of_neg (by simp [hxs c List.mem_cons_self])]
  rw [trimBy, trimEndBy, hdrop s h, hdrop s.reverse (by simpa using h), List.reverse_reverse]

/-- What begins with a character that is not of the class keeps its beginning. -/
lemma trimBy_cons {c : Char} (hc : p c = false) (s : List Char) :
    trimBy p (c :: s) = c :: trimEndBy p s := by
  unfold trimBy trimEndBy
  rw [List.dropWhile_cons_of_neg (by simp [hc]), List.reverse_cons, List.dropWhile_append]
  split
  · next hnil => simp_all
  · simp

lemma trimEndBy_isPrefix (s : List Char) : trimEndBy p s <+: s := by
  unfold trimEndBy
  rw [← List.reverse_suffix, List.reverse_reverse]
  exact List.dropWhile_suffix p

/-! ## Texts of one line -/

/-- What a text is made of is not looked up in its bytes. -/
lemma notMem_toList_ofList {c : Char} {cs : List Char} (h : c ∉ cs) :
    c ∉ (String.ofList cs).toList := by
  rwa [String.toList_ofList]

lemma isDigit_of_mem_toDigits {n : Nat} {c : Char} (h : c ∈ Nat.toDigits 10 n) :
    isDigit c = true := by
  have hdigit := Nat.isDigit_of_mem_toDigits (by decide) (by decide) h
  have hsmall : c.toNat < 0x80 := by
    simp only [Char.isDigit, Bool.and_eq_true, decide_eq_true_eq] at hdigit
    exact Nat.lt_of_le_of_lt (UInt32.le_iff_toNat_le.mp hdigit.2) (by decide)
  rw [isDigit, if_pos hsmall, hdigit]

lemma newline_notMem_toDigits (n : Nat) : '\n' ∉ Nat.toDigits 10 n := fun h =>
  absurd (isDigit_of_mem_toDigits h) (by decide)

lemma newline_notMem_toString (n : Nat) : '\n' ∉ (toString n).toList := by
  rw [Nat.toString_eq_repr, Nat.toList_repr]
  exact newline_notMem_toDigits n

/-- A word is one line. -/
lemma newline_notMem_firstWord {text word : String} (h : firstWord? text = some word) :
    '\n' ∉ word.toList := by
  unfold firstWord? at h
  split at h
  · cases h
  · next hword =>
    obtain rfl := Option.some.inj h
    rw [String.toList_ofList]
    exact fun hmem => absurd (List.mem_takeWhile_imp hmem) (by decide)

lemma dropRepeated_subset (start s : List Char) : dropRepeated start s ⊆ s := by
  fun_induction dropRepeated start s with
  | case1 s _ ih => exact fun c hc => List.mem_of_mem_drop (ih hc)
  | case2 s _ => exact fun c hc => hc

lemma newline_notMem_trimEndings {text : String} (h : '\n' ∉ text.toList) (ending : String) :
    '\n' ∉ (trimEndings text ending).toList := by
  unfold trimEndings
  rw [String.toList_ofList, List.mem_reverse]
  exact fun hmem => h (List.mem_reverse.mp (dropRepeated_subset _ _ hmem))

end DirectoryNotes.Text
