import DirectoryNotes.Proofs.Text.Items

/-!
# Trimmed texts

What trimming takes off the ends of a text, and what it leaves:

* `exists_trimBy_eq`: a text is what trimming leaves of it between characters of the class;
* `trimBy_eq_self_iff`: trimming takes nothing off where neither end is of the class;
* `trimBy_trimBy`: trimming again takes nothing off.
-/

namespace DirectoryNotes.Text

variable {p : Char → Bool} {s : List Char}

/-- What trimming takes off is of the class. -/
lemma exists_trimBy_eq (p : Char → Bool) (s : List Char) : ∃ before after, before.all p = true ∧
    after.all p = true ∧ s = before ++ trimBy p s ++ after := by
  refine ⟨s.takeWhile p, ((s.dropWhile p).reverse.takeWhile p).reverse, ?_, ?_, ?_⟩
  · exact List.all_takeWhile
  · rw [List.all_reverse]
    exact List.all_takeWhile
  · rw [trimBy, trimEndBy, List.append_assoc, ← List.reverse_append,
      List.takeWhile_append_dropWhile, List.reverse_reverse, List.takeWhile_append_dropWhile]

lemma trimBy_subset : trimBy p s ⊆ s := by
  obtain ⟨before, after, -, -, hs⟩ := exists_trimBy_eq p s
  intro c hc
  rw [hs]
  simp [hc]

/-- Trimming takes nothing off exactly where neither end is of the class. -/
lemma trimBy_eq_self_iff : trimBy p s = s ↔
    (∀ c ∈ s.head?, p c = false) ∧ ∀ c ∈ s.getLast?, p c = false := by
  constructor
  · intro h
    refine ⟨fun c hc => ?_, fun c hc => ?_⟩
    · rw [← dropWhile_of_trimmed h] at hc
      have hhead := List.head?_dropWhile_not p s
      rw [hc] at hhead
      simpa using hhead
    · rw [← h, trimBy, trimEndBy, List.getLast?_reverse] at hc
      have hhead := List.head?_dropWhile_not p (s.dropWhile p).reverse
      rw [hc] at hhead
      simpa using hhead
  · rintro ⟨hhead, hlast⟩
    have hdrop : ∀ xs : List Char, (∀ c ∈ xs.head?, p c = false) → xs.dropWhile p = xs := by
      intro xs hxs
      cases xs with
      | nil => rfl
      | cons c xs => rw [List.dropWhile_cons_of_neg (by simp [hxs c rfl])]
    rw [trimBy, trimEndBy, hdrop s hhead, hdrop s.reverse, List.reverse_reverse]
    rwa [List.head?_reverse]

lemma trimBy_concat_of_neg {c : Char} (hc : p c = false) (s : List Char) :
    trimBy p (s ++ [c]) = s.dropWhile p ++ [c] := by
  have hdrop : (s ++ [c]).dropWhile p = s.dropWhile p ++ [c] := by
    rw [List.dropWhile_append]
    split
    · next hnil => simp_all
    · rfl
  rw [trimBy, hdrop, trimEndBy, List.reverse_append, List.reverse_singleton, List.singleton_append,
    List.dropWhile_cons_of_neg (by simp [hc]), List.reverse_cons, List.reverse_reverse]

lemma trimBy_trimBy (p : Char → Bool) (s : List Char) : trimBy p (trimBy p s) = trimBy p s := by
  obtain ⟨before, after, hbefore, hafter, hs⟩ := exists_trimBy_eq p s
  conv_rhs => rw [hs, trimBy_blanks hbefore hafter]

end DirectoryNotes.Text
