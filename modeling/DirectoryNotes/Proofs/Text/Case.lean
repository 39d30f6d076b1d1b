import DirectoryNotes.Text
import Mathlib.Tactic.Lemma

/-!
# Letter case within a line

A text of one line is one in small letters and in capitals too, whatever the tables do to its
letters:

* `newline_notMem_lower`, `newline_notMem_upper`: no line feed comes up when the case changes.
-/

namespace DirectoryNotes.Text

variable {c : Char}

lemma eq_of_ofNat_eq_newline {n : Nat} (h : Char.ofNat n = '\n') : n = 10 := by
  have hcode := congrArg Char.toNat h
  by_cases hvalid : n.isValidChar
  · rw [Char.ofNat, dif_pos hvalid] at hcode
    exact hcode
  · rw [Char.ofNat, dif_neg hvalid] at hcode
    exact absurd hcode (by decide)

lemma forall_ascii {P : Char → Prop} (h : ∀ n < 0x80, P (Char.ofNat n)) (hc : c.toNat < 0x80) :
    P c := by
  rw [← Char.ofNat_toNat c]
  exact h c.toNat hc

/-- A table that leads no character beyond ASCII to a line feed. -/
def KeepsLines (special : List (Nat × List Nat)) (shifts : List CaseShift) : Prop :=
  (∀ s ∈ special, 10 ∉ s.2) ∧ ∀ s ∈ shifts, 10 < s.first + s.offset

lemma newline_notMem_shiftCase {special : List (Nat × List Nat)} {shifts : List CaseShift}
    (htables : KeepsLines special shifts) (hc : c ≠ '\n') :
    '\n' ∉ shiftCase special shifts c := by
  intro hmem
  unfold shiftCase at hmem
  split at hmem
  · next letters hletters =>
    obtain ⟨n, hn, heq⟩ := List.mem_map.mp hmem
    obtain ⟨s, hs, rfl⟩ : ∃ s ∈ special, s.2 = letters := by
      obtain ⟨before, after, hsplit, -⟩ := List.lookup_eq_some_iff.mp hletters
      exact ⟨_, hsplit ▸ List.mem_append_right _ List.mem_cons_self, rfl⟩
    exact htables.1 s hs (eq_of_ofNat_eq_newline heq ▸ hn)
  · split at hmem
    · next offset hoffset =>
      obtain ⟨s, hs, hshift⟩ := List.exists_of_findSome?_eq_some hoffset
      obtain ⟨⟨hfirst, -⟩, heq⟩ := Option.ite_none_right_eq_some.mp hshift
      obtain rfl := Option.some.inj heq
      have htarget := eq_of_ofNat_eq_newline (List.mem_singleton.mp hmem).symm
      have hbound := htables.2 s hs
      omega
    · exact hc (List.mem_singleton.mp hmem).symm

lemma newline_notMem_lowerChar (hc : c ≠ '\n') : '\n' ∉ lowerChar c := by
  unfold lowerChar
  split
  · next hascii =>
    have hascii' := forall_ascii (P := fun c => c ≠ '\n' → '\n' ∉ [c.toLower]) (by decide) hascii
    exact hascii' hc
  · exact newline_notMem_shiftCase (by unfold KeepsLines; decide +kernel) hc

lemma newline_notMem_upperChar (hc : c ≠ '\n') : '\n' ∉ upperChar c := by
  unfold upperChar
  split
  · next hascii =>
    have hascii' := forall_ascii (P := fun c => c ≠ '\n' → '\n' ∉ [c.toUpper]) (by decide) hascii
    exact hascii' hc
  · exact newline_notMem_shiftCase (by unfold KeepsLines; decide +kernel) hc

lemma newline_notMem_lowerChars {before s : List Char} (h : '\n' ∉ s) :
    '\n' ∉ lowerChars before s := by
  induction s generalizing before with
  | nil => exact List.not_mem_nil
  | cons c cs ih =>
    rw [List.mem_cons, not_or] at h
    unfold lowerChars
    rw [List.mem_append, not_or]
    refine ⟨?_, ih h.2⟩
    split
    · -- neither of the two small sigmas ends a line
      split <;> decide
    · exact newline_notMem_lowerChar (Ne.symm h.1)

/-- A text of one line is one in small letters. -/
lemma newline_notMem_lower {s : String} (h : '\n' ∉ s.toList) : '\n' ∉ (lower s).toList := by
  unfold lower
  rw [String.toList_ofList]
  exact newline_notMem_lowerChars h

/-- A text of one line is one in capitals. -/
lemma newline_notMem_upper {s : String} (h : '\n' ∉ s.toList) : '\n' ∉ (upper s).toList := by
  unfold upper
  rw [String.toList_ofList, List.mem_flatMap]
  rintro ⟨c, hc, hmem⟩
  refine newline_notMem_upperChar ?_ hmem
  rintro rfl
  exact h hc

end DirectoryNotes.Text
