import DirectoryNotes.Proofs.Pattern.LineEnds

/-!
# Searches up to a mark

A pattern may end in a mark, a character that nothing before it in the pattern can take. Such a
pattern looks no further than the next mark, so what a search finds up to a mark does not depend on
what comes after:

* `rel_attempt`: an attempt before a mark, and `EndsIn`, `rel_matchAt?_front`: a match;
* `exists_getElem?_inLinesFrom`: the matches of a search, one by one;
* `exists_getElem?_inLines`: the match that ends where a text is taken up in another way.
-/

namespace DirectoryNotes

/-- Two matches at the same place with the same groups, whatever comes after them. -/
structure Match.Same (m m' : Match) : Prop where
  groups : m'.groups = m.groups
  start : m'.start.index = m.start.index
  stop : m'.stop.index = m.stop.index

lemma Match.Same.length_eq {m m' : Match} (h : m.Same m') : m'.length = m.length := by
  rw [Match.length, Match.length, h.start, h.stop]

namespace Pattern

open Text (isBlank)

variable {α β : Type} {R : α → β → Prop} {p : Pattern} {c : Char} {index skip i : Nat} {fresh : Bool}
  {groups : Groups} {s front behind behind' : List Char} {m : Match}

/-! ## Before a mark -/

/-- The pattern repeats no other. -/
def isSimple : Pattern → Bool
  | .empty | .lineEnd | .one _ | .run _ => true
  | .seq p q | .choice p q => p.isSimple && q.isSimple
  | .repeated _ => false
  | .group _ p => p.isSimple

/-- A run ends before a mark that it cannot take. -/
lemma afterRun_mark {cls : Char → Bool} (hc : cls c = false) (index : Nat) (s behind : List Char) :
    afterRun cls index (s ++ c :: behind) =
      ⟨index + (s.takeWhile cls).length, s.dropWhile cls ++ c :: behind⟩ := by
  have hhead : ∀ d ∈ (s.dropWhile cls ++ c :: behind).head?, cls d = false := by
    intro d hd
    have hdrop := List.head?_dropWhile_not cls s
    cases hleft : s.dropWhile cls with
    | nil =>
      rw [hleft] at hd
      exact Option.some.inj hd ▸ hc
    | cons e es =>
      rw [hleft] at hd hdrop
      obtain rfl := Option.some.inj hd
      simpa using hdrop
  have htaken : ∀ d ∈ s.takeWhile cls, cls d = true := fun _ hd => List.mem_takeWhile_imp hd
  conv_lhs => rw [← List.takeWhile_append_dropWhile (p := cls) (l := s), List.append_assoc]
  exact afterRun_append htaken hhead

/-- A pattern that cannot take a mark gets no further than to the mark. -/
theorem rel_attempt {k : Cursor → Groups → Option α} {k' : Cursor → Groups → Option β}
    (hsimple : p.isSimple = true) (hmark : p.takes c = false)
    (hk : ∀ taken left, s = taken ++ left → ∀ groups, Option.Rel R
      (k ⟨index + taken.length, left ++ c :: behind⟩ groups)
      (k' ⟨index + taken.length, left ++ c :: behind'⟩ groups)) :
    Option.Rel R (p.attempt ⟨index, s ++ c :: behind⟩ groups k)
      (p.attempt ⟨index, s ++ c :: behind'⟩ groups k') := by
  induction p generalizing s index groups k k' with
  | empty => exact hk [] s rfl groups
  | lineEnd =>
    have hend : ∀ behind, Cursor.atLineEnd ⟨index, s ++ c :: behind⟩ =
        Cursor.atLineEnd ⟨index, s ++ [c]⟩ := by
      intro behind
      cases s with
      | nil => rfl
      | cons d ds => rfl
    rw [attempt, attempt, hend behind, hend behind']
    split
    · exact hk [] s rfl groups
    · exact .none
  | one cls =>
    cases s with
    | nil =>
      have hc : cls c = false := hmark
      show Option.Rel R (if cls c then _ else _) (if cls c then _ else _)
      rw [hc]
      exact .none
    | cons d ds =>
      show Option.Rel R (if cls d then _ else _) (if cls d then _ else _)
      split
      · exact hk [d] ds rfl groups
      · exact .none
  | run cls =>
    have hc : cls c = false := hmark
    rw [attempt, attempt, afterRun_mark hc, afterRun_mark hc]
    exact hk _ _ List.takeWhile_append_dropWhile.symm groups
  | seq p q ihp ihq =>
    obtain ⟨hp, hq⟩ := Bool.and_eq_true_iff.mp hsimple
    obtain ⟨hpc, hqc⟩ := Bool.or_eq_false_iff.mp hmark
    rw [attempt, attempt]
    refine ihp hp hpc fun taken left hs groups => ihq hq hqc fun taken' left' hleft groups => ?_
    have hmore := hk (taken ++ taken') left' (by rw [hs, hleft, List.append_assoc]) groups
    rwa [List.length_append, ← Nat.add_assoc] at hmore
  | choice p q ihp ihq =>
    obtain ⟨hp, hq⟩ := Bool.and_eq_true_iff.mp hsimple
    obtain ⟨hpc, hqc⟩ := Bool.or_eq_false_iff.mp hmark
    rw [attempt_choice, attempt_choice]
    exact Agree.rel_or (ihp hp hpc hk) (ihq hq hqc hk)
  | repeated p ih => cases hsimple
  | group n p ih =>
    rw [attempt_group, attempt_group]
    refine ih hsimple hmark fun taken left hs groups => ?_
    subst hs
    rw [List.append_assoc, List.append_assoc, textTo_append, textTo_append]
    exact hk taken left rfl _

/-- The pattern ends in a mark, which nothing before it can take. -/
def EndsIn (p : Pattern) (c : Char) : Prop :=
  ∃ q : Pattern, p = q ++ Pattern.one (· == c) ∧ q.isSimple = true ∧ q.takes c = false

lemma EndsIn.least_pos (hp : p.EndsIn c) : 1 ≤ p.least := by
  obtain ⟨q, rfl, -, -⟩ := hp
  exact Nat.le_add_left 1 q.least

lemma EndsIn.getLast?_of_spans {taken rest : List Char} {added : Groups} (hp : p.EndsIn c)
    (h : p.Spans taken rest added) : taken.getLast? = some c := by
  obtain ⟨q, rfl, -, -⟩ := hp
  obtain ⟨first, second, _, _, rfl, -, -, ⟨d, rfl, hd⟩, -⟩ := h
  rw [List.getLast?_concat, beq_iff_eq.mp hd]

lemma rel_matchAt?_mark (hp : p.EndsIn c) (index : Nat) (s behind behind' : List Char) :
    Option.Rel Match.Same (p.matchAt? ⟨index, s ++ c :: behind⟩)
      (p.matchAt? ⟨index, s ++ c :: behind'⟩) := by
  obtain ⟨q, rfl, hsimple, hmark⟩ := hp
  rw [matchAt?, matchAt?, attempt_append, attempt_append]
  refine rel_attempt hsimple hmark fun taken left _ groups => ?_
  cases left with
  | nil =>
    show Option.Rel _ (if c == c then _ else _) (if c == c then _ else _)
    rw [beq_self_eq_true]
    exact .some ⟨rfl, rfl, rfl⟩
  | cons d ds =>
    show Option.Rel _ (if d == c then _ else _) (if d == c then _ else _)
    split
    · exact .some ⟨rfl, rfl, rfl⟩
    · exact .none

/-- In a text with a mark at its end the same matches, whatever comes after. -/
lemma rel_matchAt?_front (hp : p.EndsIn c) (index : Nat) (hlast : front.getLast? = some c)
    (behind behind' : List Char) : Option.Rel Match.Same (p.matchAt? ⟨index, front ++ behind⟩)
      (p.matchAt? ⟨index, front ++ behind'⟩) := by
  obtain ⟨s, rfl⟩ := List.getLast?_eq_some_iff.mp hlast
  rw [List.append_assoc, List.append_assoc]
  exact rel_matchAt?_mark hp index s behind behind'

/-! ## Searches -/

/-- A search finds only what takes something from the place on where it begins. -/
lemma index_lt_of_mem_inLinesFrom (hleast : 1 ≤ p.least) {text : List Char}
    (h : m ∈ p.inLinesFrom index fresh skip text) : index < m.stop.index := by
  induction text generalizing index fresh skip with
  | nil => cases h
  | cons c cs ih =>
    rcases mem_inLinesFrom_cons h with ⟨-, -, hmatch⟩ | ⟨_, _, h, -⟩
    · obtain ⟨taken, rest, -, hspans, -, hstop⟩ := exists_of_matchAt? hmatch
      have htaken := least_le_of_spans hspans
      rw [hstop]
      show index < index + taken.length
      omega
    · exact Nat.lt_of_succ_lt (ih h)

/-- The matches that end within a text with a mark at its end are the same, whatever comes after. -/
lemma exists_getElem?_inLinesFrom (hp : p.EndsIn c) (hfront : front.getLast?.all (· == c) = true)
    (h : (p.inLinesFrom index fresh skip (front ++ behind))[i]? = some m)
    (hstop : m.stop.index ≤ index + front.length) (behind' : List Char) :
    ∃ m', (p.inLinesFrom index fresh skip (front ++ behind'))[i]? = some m' ∧ m.Same m' := by
  induction front generalizing index fresh skip i with
  | nil =>
    -- what the search finds from here on ends later
    have hlater := index_lt_of_mem_inLinesFrom hp.least_pos (List.mem_of_getElem? h)
    exact absurd hlater (Nat.not_lt.mpr hstop)
  | cons d ds ih =>
    have hds : ds.getLast?.all (· == c) = true := by
      cases ds with
      | nil => rfl
      | cons e es => rwa [List.getLast?_cons_cons] at hfront
    have hstop' : m.stop.index ≤ index + 1 + ds.length := by
      rw [List.length_cons] at hstop
      omega
    have hrel : Option.Rel Match.Same
        (if fresh then p.matchAt? ⟨index, d :: (ds ++ behind)⟩ else none)
        (if fresh then p.matchAt? ⟨index, d :: (ds ++ behind')⟩ else none) := by
      split
      · have hlast : (d :: ds).getLast? = some c := by
          rw [List.getLast?_eq_some_getLast (List.cons_ne_nil d ds)] at hfront ⊢
          exact congrArg some (beq_iff_eq.mp hfront)
        exact rel_matchAt?_front hp index hlast behind behind'
      · exact .none
    rw [List.cons_append, inLinesFrom] at h ⊢
    split at h
    · next hskip =>
      rw [if_pos hskip]
      exact ih hds h hstop'
    · next hskip =>
      rw [if_neg hskip]
      split at h
      · next hblank =>
        rw [if_pos hblank]
        exact ih hds h hstop'
      · next hblank =>
        rw [if_neg hblank]
        generalize (if fresh then p.matchAt? ⟨index, d :: (ds ++ behind)⟩ else none) = found at *
        generalize (if fresh then p.matchAt? ⟨index, d :: (ds ++ behind')⟩ else none) = found' at *
        cases hrel with
        | none => exact ih hds h hstop'
        | some hsame =>
          cases i with
          | zero =>
            obtain rfl := Option.some.inj h
            exact ⟨_, rfl, hsame⟩
          | succ i =>
            rw [List.getElem?_cons_succ] at h ⊢
            rw [hsame.length_eq]
            exact ih hds h hstop'

/-- A match stands where it ends. -/
lemma stop_eq_of_mem_inLines (h : m ∈ p.inLines (front ++ behind))
    (hstop : m.stop.index = front.length) :
    m.stop = ⟨front.length, behind⟩ ∧
      ∃ before taken, front = before ++ taken ∧ p.Spans taken behind m.groups := by
  obtain ⟨line, indent, taken, rest, hhead, hspans, -, hend⟩ := exists_of_mem_inLines h
  have htext : front ++ behind = (line ++ indent ++ taken) ++ rest := by
    rw [hhead.text_eq, List.append_assoc, List.append_assoc, List.append_assoc]
  have hlength : front.length = (line ++ indent ++ taken).length := by
    rw [← hstop, hend]
  obtain ⟨rfl, rfl⟩ := List.append_inj htext hlength
  exact ⟨hend, line ++ indent, taken, rfl, hspans⟩

/-- A match that ends where a text goes on in another way is found in the other text too. -/
theorem exists_getElem?_inLines (hp : p.EndsIn c)
    (h : (p.inLines (front ++ behind))[i]? = some m) (hstop : m.stop.index = front.length)
    (behind' : List Char) :
    ∃ m', (p.inLines (front ++ behind'))[i]? = some m' ∧ m'.groups = m.groups ∧
      m'.stop = ⟨front.length, behind'⟩ := by
  obtain ⟨-, before, taken, hfront, hspans⟩ :=
    stop_eq_of_mem_inLines (List.mem_of_getElem? h) hstop
  have hlast : front.getLast?.all (· == c) = true := by
    have htaken := hp.getLast?_of_spans hspans
    rw [hfront, List.getLast?_append, htaken]
    exact beq_self_eq_true c
  obtain ⟨m', hm', hsame⟩ :=
    exists_getElem?_inLinesFrom hp hlast h (by rw [hstop, Nat.zero_add]) behind'
  have hstop' : m'.stop.index = front.length := hsame.stop.trans hstop
  exact ⟨m', hm', hsame.groups, (stop_eq_of_mem_inLines (List.mem_of_getElem? hm') hstop').1⟩

end Pattern

end DirectoryNotes
