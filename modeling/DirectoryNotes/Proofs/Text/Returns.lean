import DirectoryNotes.Proofs.Text.Items

/-!
# Line ends with a carriage return

`withReturns` is the text in which every line ends in a carriage return and a line feed, as a file
has it that was checked out on another system. Trimming and cutting do not see the difference, as
both characters are blanks:

* `trimBy_withReturns`, `pieces_withReturns`, `firstWord?_withReturns`: the readers of an item;
* `withReturns_eq_iff`: a text in one line is the same with and without returns.
-/

namespace DirectoryNotes.Text

/-- A carriage return before every line feed. -/
def withReturns : List Char → List Char
  | [] => []
  | c :: cs => if c = '\n' then '\r' :: '\n' :: withReturns cs else c :: withReturns cs

variable {c sep : Char} {s t : List Char} {cls : Char → Bool}

@[simp] lemma withReturns_nil : withReturns [] = [] := rfl

@[simp] lemma withReturns_newline : withReturns ('\n' :: s) = '\r' :: '\n' :: withReturns s := rfl

lemma withReturns_cons (hc : c ≠ '\n') : withReturns (c :: s) = c :: withReturns s := if_neg hc

@[simp] lemma withReturns_append (s t : List Char) :
    withReturns (s ++ t) = withReturns s ++ withReturns t := by
  induction s with
  | nil => rfl
  | cons c cs ih =>
    rw [List.cons_append, withReturns, withReturns, ih]
    split <;> rfl

lemma withReturns_eq_self (h : '\n' ∉ s) : withReturns s = s := by
  induction s with
  | nil => rfl
  | cons c cs ih =>
    obtain ⟨hc, hcs⟩ := List.ne_and_not_mem_of_not_mem_cons h
    rw [withReturns_cons (Ne.symm hc), ih hcs]

lemma newline_mem_withReturns_iff : '\n' ∈ withReturns s ↔ '\n' ∈ s := by
  induction s with
  | nil => rfl
  | cons c cs ih =>
    by_cases hc : c = '\n'
    · simp [hc]
    · rw [withReturns_cons hc, List.mem_cons, List.mem_cons, ih]

lemma withReturns_eq_iff (ht : '\n' ∉ t) : withReturns s = t ↔ s = t := by
  constructor
  · rintro rfl
    exact (withReturns_eq_self fun hs => ht (newline_mem_withReturns_iff.mpr hs)).symm
  · rintro rfl
    exact withReturns_eq_self ht

/-! ## Runs of a class -/

/-- A class that does not tell the two characters apart drops both or none. -/
lemma dropWhile_withReturns (hcls : cls '\r' = cls '\n') :
    (withReturns s).dropWhile cls = withReturns (s.dropWhile cls) := by
  induction s with
  | nil => rfl
  | cons c cs ih =>
    by_cases hc : c = '\n'
    · subst hc
      rw [withReturns_newline, List.dropWhile_cons, List.dropWhile_cons, List.dropWhile_cons, hcls]
      cases hnewline : cls '\n' with
      | false => simp
      | true => simpa using ih
    · rw [withReturns_cons hc, List.dropWhile_cons, List.dropWhile_cons, ih]
      split
      · rfl
      · rw [withReturns_cons hc]

/-- A class with neither of the two characters stops before the first line end. -/
lemma takeWhile_withReturns (hreturn : cls '\r' = false) (hnewline : cls '\n' = false) :
    (withReturns s).takeWhile cls = s.takeWhile cls := by
  induction s with
  | nil => rfl
  | cons c cs ih =>
    by_cases hc : c = '\n'
    · subst hc
      simp [hreturn, hnewline]
    · rw [withReturns_cons hc, List.takeWhile_cons, List.takeWhile_cons, ih]

lemma trimEndBy_withReturns (hcls : cls '\r' = cls '\n') :
    trimEndBy cls (withReturns s) = withReturns (trimEndBy cls s) := by
  have hkept : ∀ {d : Char} (cs : List Char), cls d = false → trimEndBy cls (cs ++ [d]) = cs ++ [d] :=
    fun cs hd => by simp [trimEndBy, hd]
  induction s using List.reverseRecOn with
  | nil => rfl
  | append_singleton cs c ih =>
    by_cases hc : c = '\n'
    · subst hc
      have hsplit : withReturns (cs ++ ['\n']) = withReturns cs ++ ['\r'] ++ ['\n'] := by simp
      cases hnewline : cls '\n' with
      | false => rw [hkept cs hnewline, hsplit, hkept _ hnewline]
      | true =>
        rw [trimEndBy_concat hnewline, ← ih, hsplit, trimEndBy_concat hnewline,
          trimEndBy_concat (hcls.trans hnewline)]
    · have hsplit : withReturns (cs ++ [c]) = withReturns cs ++ [c] := by
        rw [withReturns_append, withReturns_cons hc, withReturns_nil]
      cases hkeep : cls c with
      | false => rw [hkept cs hkeep, hsplit, hkept _ hkeep]
      | true => rw [trimEndBy_concat hkeep, ← ih, hsplit, trimEndBy_concat hkeep]

lemma trimBy_withReturns (hcls : cls '\r' = cls '\n') :
    trimBy cls (withReturns s) = withReturns (trimBy cls s) := by
  rw [trimBy, trimBy, dropWhile_withReturns hcls, trimEndBy_withReturns hcls]

/-! ## Words and pieces -/

lemma firstWord?_withReturns : firstWord? (.ofList (withReturns s)) = firstWord? (.ofList s) := by
  unfold firstWord?
  rw [String.toList_ofList, String.toList_ofList, dropWhile_withReturns (by decide),
    takeWhile_withReturns (by decide) (by decide)]

lemma pieces_withReturns (hreturn : sep ≠ '\r') (hnewline : sep ≠ '\n') :
    pieces sep (withReturns s) = (pieces sep s).map withReturns := by
  -- a character other than the separator lengthens the first piece
  have hlonger : ∀ {d : Char} (cs : List Char), d ≠ sep → ∃ first others,
      pieces sep cs = first :: others ∧ pieces sep (d :: cs) = (d :: first) :: others := by
    intro d cs hd
    obtain ⟨first, others, hpieces⟩ := List.exists_cons_of_ne_nil (pieces_ne_nil sep cs)
    exact ⟨first, others, hpieces, by rw [pieces, if_neg hd, hpieces]⟩
  induction s with
  | nil => rfl
  | cons c cs ih =>
    by_cases hc : c = '\n'
    · subst hc
      obtain ⟨first, others, hcs, hone⟩ := hlonger cs (Ne.symm hnewline)
      obtain ⟨first', others', hcs', hone'⟩ := hlonger (withReturns cs) (Ne.symm hnewline)
      obtain ⟨first'', others'', htwo, htwo'⟩ := hlonger ('\n' :: withReturns cs) (Ne.symm hreturn)
      rw [hcs', hcs, List.map_cons, List.cons.injEq] at ih
      rw [hone', List.cons.injEq] at htwo
      obtain ⟨rfl, rfl⟩ := ih
      obtain ⟨rfl, rfl⟩ := htwo
      rw [withReturns_newline, htwo', hone, List.map_cons, withReturns_newline]
    · rw [withReturns_cons hc]
      by_cases hsep : c = sep
      · rw [pieces, pieces, if_pos hsep, if_pos hsep, ih]
        rfl
      · obtain ⟨first, others, hcs, hone⟩ := hlonger cs hsep
        obtain ⟨first', others', hcs', hone'⟩ := hlonger (withReturns cs) hsep
        rw [hcs', hcs, List.map_cons, List.cons.injEq] at ih
        obtain ⟨rfl, rfl⟩ := ih
        rw [hone', hone, List.map_cons, withReturns_cons hc]

/-! ## Beginnings and endings -/

lemma isPrefixOf_withReturns (hreturn : '\r' ∉ t) (hnewline : '\n' ∉ t) :
    t.isPrefixOf (withReturns s) = t.isPrefixOf s := by
  induction t generalizing s with
  | nil => simp
  | cons d ds ih =>
    obtain ⟨hd, hds⟩ := List.ne_and_not_mem_of_not_mem_cons hreturn
    obtain ⟨hd', hds'⟩ := List.ne_and_not_mem_of_not_mem_cons hnewline
    cases s with
    | nil => rfl
    | cons c cs =>
      by_cases hc : c = '\n'
      · subst hc
        rw [withReturns_newline, List.isPrefixOf_cons_cons, List.isPrefixOf_cons_cons,
          beq_false_of_ne (Ne.symm hd), beq_false_of_ne (Ne.symm hd'), Bool.false_and,
          Bool.false_and]
      · rw [withReturns_cons hc, List.isPrefixOf_cons_cons, List.isPrefixOf_cons_cons, ih hds hds']

lemma isSuffixOf_withReturns (hnewline : '\n' ∉ t) :
    t.isSuffixOf (withReturns s) = t.isSuffixOf s := by
  have hsuffix : t <:+ withReturns s → t <:+ s := by
    induction s using List.reverseRecOn generalizing t with
    | nil => exact id
    | append_singleton cs c ih =>
      rintro ⟨front, hfront⟩
      rcases List.eq_nil_or_concat t with rfl | ⟨ds, d, rfl⟩
      · exact List.nil_suffix
      · rw [List.concat_eq_append] at hfront hnewline ⊢
        by_cases hc : c = '\n'
        · subst hc
          have hlast := congrArg List.getLast? hfront
          simp at hlast
          simp [hlast] at hnewline
        · rw [withReturns_append, withReturns_cons hc, withReturns_nil, ← List.append_assoc] at hfront
          obtain ⟨hmore, hd⟩ := List.append_inj' hfront rfl
          obtain ⟨more, rfl⟩ := ih (fun h => hnewline (List.mem_append_left _ h)) ⟨front, hmore⟩
          rw [← hd]
          exact ⟨more, by rw [List.append_assoc]⟩
  rw [Bool.eq_iff_iff, List.isSuffixOf_iff_suffix, List.isSuffixOf_iff_suffix]
  refine ⟨hsuffix, ?_⟩
  rintro ⟨front, rfl⟩
  rw [withReturns_append, withReturns_eq_self hnewline]
  exact List.suffix_append _ _

end DirectoryNotes.Text
