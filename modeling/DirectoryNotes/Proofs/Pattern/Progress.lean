import DirectoryNotes.Proofs.Pattern.Spans

/-!
# How far a pattern gets

A pattern goes forward only, and `Pattern.least` says how far at least. So an attempt asks its
continuation nowhere else, and the bound on the times that a pattern is repeated never shows:

* `least_le_of_spans`, `attempt_congr`: no match ends before `least` characters;
* `attempt_repeated`: a repetition is one more time and then the repetition, or else nothing.
-/

namespace DirectoryNotes.Pattern

variable {α : Type} {p q : Pattern} {here : Cursor} {groups added : Groups}
  {k k' : Cursor → Groups → Option α} {taken rest : List Char}

/-- How many characters a pattern takes at least. -/
def least : Pattern → Nat
  | .empty | .lineEnd | .run _ | .repeated _ => 0
  | .one _ => 1
  | .seq p q => p.least + q.least
  | .choice p q => min p.least q.least
  | .group _ p => p.least

lemma least_le_of_spans (h : p.Spans taken rest added) : p.least ≤ taken.length := by
  induction p generalizing taken rest added with
  | empty => exact Nat.zero_le _
  | lineEnd => exact Nat.zero_le _
  | run cls => exact Nat.zero_le _
  | repeated p ih => exact Nat.zero_le _
  | one cls =>
    obtain ⟨⟨c, rfl, -⟩, -⟩ := h
    exact Nat.le_refl 1
  | seq p q ihp ihq =>
    obtain ⟨first, second, inFirst, inSecond, rfl, rfl, hfirst, hsecond⟩ := h
    rw [List.length_append]
    exact Nat.add_le_add (ihp hfirst) (ihq hsecond)
  | choice p q ihp ihq =>
    rcases h with h | h
    · exact Nat.le_trans (Nat.min_le_left _ _) (ihp h)
    · exact Nat.le_trans (Nat.min_le_right _ _) (ihq h)
  | group n p ih =>
    obtain ⟨inner, -, h⟩ := h
    exact ih h

/-! ## Continuations -/

lemma repeatThen_congr {step : Cursor → Groups → (Cursor → Groups → Option α) → Option α}
    (hstep : ∀ here groups (k k' : Cursor → Groups → Option α),
      (∀ there groups, there.rest.length ≤ here.rest.length → k there groups = k' there groups) →
        step here groups k = step here groups k')
    (bound : List Char)
    (hk : ∀ there groups, there.rest.length ≤ here.rest.length → k there groups = k' there groups) :
    repeatThen step k bound here groups = repeatThen step k' bound here groups := by
  induction bound generalizing here groups with
  | nil => exact hk here groups (Nat.le_refl _)
  | cons _ bound ih =>
    rw [repeatThen, repeatThen, hk here groups (Nat.le_refl _)]
    rw [hstep _ _ _ _ fun there groups hle =>
      ih fun beyond groups hle' => hk beyond groups (Nat.le_trans hle' hle)]

/-- An attempt asks its continuation only as far on as the pattern goes at least. -/
lemma attempt_congr (hk : ∀ there groups, there.rest.length + p.least ≤ here.rest.length →
    k there groups = k' there groups) : p.attempt here groups k = p.attempt here groups k' := by
  induction p generalizing here groups k k' with
  | empty => exact hk here groups (Nat.le_refl _)
  | lineEnd =>
    rw [attempt, attempt, hk here groups (Nat.le_refl _)]
  | one cls =>
    obtain ⟨index, rest⟩ := here
    cases rest with
    | nil => rfl
    | cons c cs =>
      show (if cls c then k ⟨index + 1, cs⟩ groups else none) =
        if cls c then k' ⟨index + 1, cs⟩ groups else none
      rw [hk ⟨index + 1, cs⟩ groups (Nat.le_refl _)]
  | run cls =>
    obtain ⟨taken, rest, htext, -, -, hrun⟩ := exists_afterRun cls here.index here.rest
    rw [attempt, attempt, hrun]
    refine hk _ groups ?_
    rw [htext, List.length_append]
    exact Nat.le_add_left _ _
  | seq p q ihp ihq =>
    refine ihp fun there groups hp => ihq fun beyond groups hq => hk beyond groups ?_
    show _ + (p.least + q.least) ≤ _
    omega
  | choice p q ihp ihq =>
    -- either way goes at least as far on as the one that goes less far
    have hstep : ∀ {least}, min p.least q.least ≤ least → ∀ there groups,
        there.rest.length + least ≤ here.rest.length → k there groups = k' there groups :=
      fun hmin there groups hle =>
        hk there groups (Nat.le_trans (Nat.add_le_add_left hmin _) hle)
    rw [attempt, attempt, ihp (hstep (Nat.min_le_left ..)), ihq (hstep (Nat.min_le_right ..))]
  | repeated p ih =>
    have hstep : ∀ here groups (k k' : Cursor → Groups → Option α),
        (∀ there groups, there.rest.length ≤ here.rest.length → k there groups = k' there groups) →
          p.attempt here groups k = p.attempt here groups k' := fun here groups k k' hk =>
      ih fun there groups hle => hk there groups (Nat.le_trans (Nat.le_add_right _ _) hle)
    rw [attempt, attempt]
    exact repeatThen_congr hstep here.rest hk
  | group n p ih => exact ih fun there groups hle => hk there _ hle

lemma attempt_choice (p q : Pattern) : (choice p q).attempt here groups k =
    (p.attempt here groups k).or (q.attempt here groups k) := by
  rw [attempt]
  cases p.attempt here groups k <;> rfl

/-- What takes something does not match where nothing is left. -/
lemma attempt_eq_none_of_nil (hp : 1 ≤ p.least) (hrest : here.rest = []) :
    p.attempt here groups k = none := by
  obtain ⟨index, text⟩ := here
  obtain rfl : text = [] := hrest
  by_contra hsome
  obtain ⟨x, hx⟩ := Option.ne_none_iff_exists'.mp hsome
  obtain ⟨taken, rest, added, htext, hspans, -⟩ := exists_spans_of_attempt hx
  have hlength := least_le_of_spans hspans
  obtain ⟨rfl, -⟩ := List.append_eq_nil_iff.mp htext.symm
  exact absurd (Nat.le_trans hp hlength) (Nat.lt_irrefl 0)

/-- A bound on the repetitions that is no less than what is left does not show. -/
lemma repeatThen_bound (hp : 1 ≤ p.least) {bound bound' : List Char}
    (h : here.rest.length ≤ bound.length) (h' : here.rest.length ≤ bound'.length) :
    repeatThen (fun here groups k => p.attempt here groups k) k bound here groups =
      repeatThen (fun here groups k => p.attempt here groups k) k bound' here groups := by
  induction bound generalizing bound' here groups with
  | nil =>
    have hrest : here.rest = [] := List.length_eq_zero_iff.mp (Nat.le_zero.mp h)
    cases bound' with
    | nil => rfl
    | cons _ bound' =>
      rw [repeatThen, repeatThen, attempt_eq_none_of_nil hp hrest]
  | cons _ bound ih =>
    cases bound' with
    | nil =>
      have hrest : here.rest = [] := List.length_eq_zero_iff.mp (Nat.le_zero.mp h')
      rw [repeatThen, repeatThen, attempt_eq_none_of_nil hp hrest]
    | cons _ bound' =>
      rw [List.length_cons] at h h'
      have hmore : (p.attempt here groups fun there groups =>
            repeatThen (fun here groups k => p.attempt here groups k) k bound there groups) =
          p.attempt here groups fun there groups =>
            repeatThen (fun here groups k => p.attempt here groups k) k bound' there groups :=
        attempt_congr fun there groups hle => ih (by omega) (by omega)
      rw [repeatThen, repeatThen, hmore]

/-- A repetition is one more time and then the repetition, or else nothing. -/
theorem attempt_repeated (hp : 1 ≤ p.least) : (repeated p).attempt here groups k =
    (p.attempt here groups fun there groups => (repeated p).attempt there groups k).or
      (k here groups) := by
  have hlonger : (repeated p).attempt here groups k =
      repeatThen (fun here groups k => p.attempt here groups k) k ('\n' :: here.rest) here groups :=
    repeatThen_bound hp (Nat.le_refl _) (Nat.le_add_right _ 1)
  have hmore : (p.attempt here groups fun there groups =>
        repeatThen (fun here groups k => p.attempt here groups k) k here.rest there groups) =
      p.attempt here groups fun there groups => (repeated p).attempt there groups k :=
    attempt_congr fun there groups hle => repeatThen_bound hp (by omega) (Nat.le_refl _)
  rw [hlonger, repeatThen, hmore]
  cases p.attempt here groups fun there groups => (repeated p).attempt there groups k <;> rfl

end DirectoryNotes.Pattern
