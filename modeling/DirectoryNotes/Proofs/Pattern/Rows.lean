import DirectoryNotes.Proofs.Pattern.Steps
import DirectoryNotes.Text

/-!
# Patterns in a text of rows

A text is often made of rows, each on a line of its own. Where a pattern fares in the same way at
the head of a row whatever comes after, and takes no more than the row, it finds in the text what it
finds in the rows one by one:

* `inLinesFrom_row`: at the head of a row, and then nothing more before its end;
* `map_inLines_rows`: in all rows, from the first to the last.
-/

namespace DirectoryNotes.Pattern

open Text (isBlank join)

variable {β ι : Type} {p : Pattern} {f : Match → β} {index skip : Nat} {fresh : Bool}
  {row taken more rest : List Char} {added : Groups}

/-! ## One row -/

/-- A row stands in one line, and begins with a character at which a search begins. -/
structure IsRow (row : List Char) : Prop where
  begins : row.head?.any (!isBlank ·) = true
  newline : '\n' ∉ row

/-- The rest of a line is passed over, whether a match takes it or not. -/
lemma inLinesFrom_rest (htaken : '\n' ∉ taken) (hskip : skip ≤ taken.length) :
    p.inLinesFrom index false skip (taken ++ rest) =
      p.inLinesFrom (index + taken.length) false 0 rest := by
  induction taken generalizing index skip with
  | nil =>
    obtain rfl : skip = 0 := Nat.le_zero.mp hskip
    rfl
  | cons c cs ih =>
    obtain ⟨hc, hcs⟩ := List.ne_and_not_mem_of_not_mem_cons htaken
    have hnewline : (c == '\n') = false := beq_false_of_ne (Ne.symm hc)
    have hindex : index + (c :: cs).length = index + 1 + cs.length := by
      rw [List.length_cons]
      omega
    rw [List.length_cons] at hskip
    rw [List.cons_append, inLinesFrom, hnewline, hindex]
    split
    · exact ih hcs (by omega)
    · split
      · exact ih hcs (Nat.zero_le _)
      · exact ih hcs (Nat.zero_le _)

/-- Of a row, only the head is tried. -/
lemma inLinesFrom_row (hrow : IsRow row)
    (hlength : ∀ m ∈ p.matchAt? ⟨index, row ++ rest⟩, m.length ≤ row.length) :
    p.inLinesFrom index true 0 (row ++ rest) =
      (p.matchAt? ⟨index, row ++ rest⟩).toList ++
        p.inLinesFrom (index + row.length) false 0 rest := by
  cases row with
  | nil => cases hrow.begins
  | cons c cs =>
    have hblank : isBlank c = false := by simpa using hrow.begins
    have hcs : '\n' ∉ cs := fun h => hrow.newline (List.mem_cons_of_mem _ h)
    have hindex : index + (c :: cs).length = index + 1 + cs.length := by
      rw [List.length_cons]
      omega
    rw [List.cons_append] at hlength ⊢
    rw [inLinesFrom, if_neg (Nat.lt_irrefl 0), if_neg (by simp [hblank]), if_pos rfl, hindex]
    cases hmatch : p.matchAt? ⟨index, c :: (cs ++ rest)⟩ with
    | none => exact inLinesFrom_rest hcs (Nat.zero_le _)
    | some m =>
      have hm := hlength m hmatch
      rw [List.length_cons] at hm
      exact congrArg (m :: ·) (inLinesFrom_rest hcs (by omega))

lemma inLinesFrom_newline :
    p.inLinesFrom index fresh 0 ('\n' :: rest) = p.inLinesFrom (index + 1) true 0 rest := by
  rw [inLinesFrom, if_neg (Nat.lt_irrefl 0), if_pos (by decide)]
  simp

/-! ## All rows -/

/-- Whatever comes after a row, the pattern finds `found` at its head, and no more than the row. -/
structure Reads (p : Pattern) (f : Match → β) (row : List Char) (found : Option β) : Prop where
  value : ∀ index rest, (p.matchAt? ⟨index, row ++ rest⟩).map f = found
  length_le : ∀ index rest, ∀ m ∈ p.matchAt? ⟨index, row ++ rest⟩, m.length ≤ row.length

lemma Takes.reads {x : β} (h : ∀ rest, p.Takes taken (more ++ rest) added)
    (hx : ∀ start stop, f ⟨start, stop, added⟩ = x) : p.Reads f (taken ++ more) (some x) where
  value index rest := by
    rw [List.append_assoc, (h rest).matchAt?, Option.map_some, hx]
  length_le index rest m hm := by
    rw [List.append_assoc, (h rest).matchAt?] at hm
    obtain rfl := Option.some.inj hm
    simp [Match.length]

lemma Fails.reads (h : ∀ rest, p.Fails (row ++ rest)) : p.Reads f row none where
  value index rest := by
    rw [(h rest).matchAt?]
    rfl
  length_le index rest m hm := by
    rw [(h rest).matchAt?] at hm
    cases hm

/-- What a row begins with may be enough for the pattern to fail. -/
lemma reads_none (known : List Char) (hrow : known <+: row)
    (h : p.mayMatch known (fun _ => true) = false) : p.Reads f row none := by
  obtain ⟨more, rfl⟩ := hrow
  refine Fails.reads fun rest => ?_
  rw [List.append_assoc]
  exact fails_of_mayMatch h (more ++ rest)

/-- In a text of rows a pattern finds what it finds in each row. -/
theorem map_inLines_rows {items : List ι} {print : ι → String} {found : ι → Option β}
    {ending : String} (hrow : ∀ i ∈ items, IsRow (print i).toList)
    (hfound : ∀ i ∈ items, p.Reads f (print i).toList (found i))
    (hending : ending = "" ∨ ending = "\n") :
    (p.inLines (join "\n" (items.map print) ++ ending).toList).map f = items.filterMap found := by
  have hlast : ∀ index fresh, p.inLinesFrom index fresh 0 ending.toList = [] := by
    intro index fresh
    rcases hending with rfl | rfl
    · rfl
    · exact inLinesFrom_newline
  have hfrom : ∀ index, (p.inLinesFrom index true 0
      ("\n".toList.intercalate (items.map fun i => (print i).toList) ++ ending.toList)).map f =
        items.filterMap found := by
    induction items with
    | nil => exact fun index => congrArg (List.map f) (hlast index true)
    | cons i items ih =>
      intro index
      obtain ⟨hi, hitems⟩ := List.forall_mem_cons.mp hrow
      obtain ⟨hfirst, hothers⟩ := List.forall_mem_cons.mp hfound
      have hhead : ∀ rest, ((p.matchAt? ⟨index, (print i).toList ++ rest⟩).toList).map f =
          (found i).toList := by
        intro rest
        rw [← hfirst.value index rest]
        cases p.matchAt? ⟨index, (print i).toList ++ rest⟩ <;> rfl
      have hsplit : (i :: items).filterMap found = (found i).toList ++ items.filterMap found := by
        cases hone : found i <;> simp [hone]
      rw [hsplit]
      cases items with
      | nil =>
        -- the last row, with or without a line feed after it
        rw [List.map_singleton, List.intercalate_singleton, inLinesFrom_row hi
          (hfirst.length_le index _), List.map_append, hhead, hlast]
        rfl
      | cons next items =>
        rw [List.map_cons, List.map_cons, List.intercalate_cons_cons, List.append_assoc,
          List.append_assoc, inLinesFrom_row hi (hfirst.length_le index _), List.map_append, hhead]
        refine congrArg ((found i).toList ++ ·) ?_
        -- the line feed makes the search start anew
        show (p.inLinesFrom _ false 0 ('\n' :: (_ ++ _))).map f = _
        rw [inLinesFrom_newline]
        exact ih hitems hothers _
  rw [String.toList_append, join, String.toList_intercalate, List.map_map]
  exact hfrom 0

/-- A pattern that fails at the head of each row finds nothing in a text of rows. -/
lemma inLines_rows_eq_nil {items : List ι} {print : ι → String} {ending : String}
    (hrow : ∀ i ∈ items, IsRow (print i).toList)
    (hnone : ∀ i ∈ items, p.Reads id (print i).toList none)
    (hending : ending = "" ∨ ending = "\n") :
    p.inLines (join "\n" (items.map print) ++ ending).toList = [] := by
  have hall := map_inLines_rows hrow hnone hending
  rwa [List.map_id, List.filterMap_eq_nil_iff.mpr fun _ _ => rfl] at hall

end DirectoryNotes.Pattern
