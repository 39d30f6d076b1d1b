import DirectoryNotes.Proofs.Pattern.Matching

/-!
# Patterns before a known text

How a pattern fares where the text ahead begins in a known way, whatever comes after it.

* `Pattern.Fails`: it matches in no way. `Pattern.mayMatch` runs a pattern on the known characters,
  and `fails_of_mayMatch` says that a pattern which gets neither through nor past them fails;
* `Pattern.TakesOnly`: it takes a given text and no other;
* `Pattern.Takes`: it takes a given text and fills given groups, before it tries another way. The
  parts of a pattern take the parts of a text one after the other (`Takes.append`), and a part that
  may be left out takes its text (`Takes.maybe`) or nothing (`Fails.maybe`).
-/

namespace DirectoryNotes.Pattern

variable {p q : Pattern} {cls : Char → Bool} {known taken taken' rest text : List Char}
  {added added' : Groups}

/-! ## Failing -/

/-- The pattern matches at the head of the text in no way. -/
def Fails (p : Pattern) (text : List Char) : Prop :=
  ∀ (index : Nat) (groups : Groups) {α : Type} (k : Cursor → Groups → Option α),
    p.attempt ⟨index, text⟩ groups k = none

lemma Fails.append (h : p.Fails text) (q : Pattern) : (p ++ q).Fails text :=
  fun index groups _ _ => h index groups _

lemma Fails.group (h : p.Fails text) (n : Nat) : (group n p).Fails text :=
  fun index groups _ _ => h index groups _

lemma fails_one (h : text.head?.any cls = false) : (one cls).Fails text := by
  intro index groups α k
  cases text with
  | nil => rfl
  | cons c cs =>
    have hc : cls c = false := h
    simp [attempt, hc]

/-- A part that may be left out lets the rest fail if the rest fails after it and without it. -/
lemma Fails.maybe_append (hp : (p ++ q).Fails text) (hq : q.Fails text) :
    (maybe p ++ q).Fails text := by
  intro index groups α k
  rw [attempt_append, maybe, attempt, ← attempt_append, hp]
  exact hq index groups k

/-- Whether a pattern, and then `k`, might match a text that begins with the known characters. -/
def mayMatch : Pattern → List Char → (List Char → Bool) → Bool
  | .empty, known, k => k known
  | .lineEnd, known, k => known.head?.all (· == '\n') && k known
  | .one cls, known, k =>
    match known with
    | [] => true
    | c :: cs => cls c && k cs
  | .run cls, known, k => known.all cls || k (known.dropWhile cls)
  | .seq p q, known, k => p.mayMatch known fun left => q.mayMatch left k
  | .choice p q, known, k => p.mayMatch known k || q.mayMatch known k
  | .repeated _, _, _ => true
  | .group _ p, known, k => p.mayMatch known k

lemma afterRun_of_not_all (h : known.all cls = false) (index : Nat) : ∃ index',
    afterRun cls index (known ++ rest) = ⟨index', known.dropWhile cls ++ rest⟩ := by
  induction known generalizing index with
  | nil => cases h
  | cons c cs ih =>
    rw [List.cons_append, afterRun, List.dropWhile_cons]
    by_cases hc : cls c = true
    · rw [if_pos hc, if_pos hc]
      exact ih (by simpa [hc] using h) (index + 1)
    · rw [if_neg hc, if_neg hc]
      exact ⟨index, rfl⟩

/-- The continuation is asked only where some of the known characters may be left. -/
lemma attempt_eq_none {α : Type} {left? : List Char → Bool} {index : Nat} {groups : Groups}
    {k : Cursor → Groups → Option α} (h : p.mayMatch known left? = false)
    (hk : ∀ left, left? left = false → ∀ index groups, k ⟨index, left ++ rest⟩ groups = none) :
    p.attempt ⟨index, known ++ rest⟩ groups k = none := by
  induction p generalizing known left? index groups k with
  | empty => exact hk known h index groups
  | lineEnd =>
    rw [mayMatch, Bool.and_eq_false_iff] at h
    rw [attempt]
    rcases h with h | h
    · cases known with
      | nil => cases h
      | cons c cs =>
        have hc : (c == '\n') = false := h
        exact if_neg (by simp [Cursor.atLineEnd, hc])
    · split
      · exact hk known h index groups
      · rfl
  | one cls =>
    cases known with
    | nil => cases h
    | cons c cs =>
      rw [mayMatch, Bool.and_eq_false_iff] at h
      show (if cls c = true then k ⟨index + 1, cs ++ rest⟩ groups else none) = none
      rcases h with h | h
      · rw [h]
        rfl
      · rw [hk cs h, ite_self]
  | run cls =>
    rw [mayMatch, Bool.or_eq_false_iff] at h
    obtain ⟨index', hrun⟩ := afterRun_of_not_all h.1 index
    rw [attempt, hrun]
    exact hk _ h.2 index' groups
  | seq p q ihp ihq =>
    -- the second pattern is what the first one goes on with
    rw [attempt]
    exact ihp h fun left hleft index groups => ihq hleft hk
  | choice p q ihp ihq =>
    rw [mayMatch, Bool.or_eq_false_iff] at h
    rw [attempt, ihp h.1 hk]
    exact ihq h.2 hk
  | repeated p ih => cases h
  | group n p ih =>
    rw [attempt]
    exact ih h fun left hleft index groups => hk left hleft index _

/-- A pattern fails when it gets neither through the known characters nor past them. -/
theorem fails_of_mayMatch (h : p.mayMatch known (fun _ => true) = false) (rest : List Char) :
    p.Fails (known ++ rest) :=
  fun _ _ _ _ => attempt_eq_none h fun _ hleft => nomatch hleft

/-! ## Taking in one way -/

/-- Before `rest`, the pattern takes `taken` and nothing else, and fills no group. -/
def TakesOnly (p : Pattern) (taken rest : List Char) : Prop :=
  ∀ (index : Nat) (groups : Groups) {α : Type} (k : Cursor → Groups → Option α),
    p.attempt ⟨index, taken ++ rest⟩ groups k = k ⟨index + taken.length, rest⟩ groups

lemma takesOnly_one {c : Char} (h : cls c = true) : (one cls).TakesOnly [c] rest :=
  fun _ _ _ _ => if_pos h

lemma takesOnly_literal (s : String) : (literal s).TakesOnly s.toList rest :=
  fun _ _ _ _ => attempt_literal s

lemma forall_head? (h : rest.head?.any cls = false) : ∀ c ∈ rest.head?, cls c = false := by
  intro c hc
  rw [Option.mem_def.mp hc] at h
  exact h

lemma takesOnly_run (htaken : taken.all cls = true) (hrest : rest.head?.any cls = false) :
    (run cls).TakesOnly taken rest := by
  intro index groups α k
  rw [attempt, afterRun_append (List.all_eq_true.mp htaken) (forall_head? hrest)]

lemma takesOnly_atLeastOne (hne : taken ≠ []) (htaken : taken.all cls = true)
    (hrest : rest.head?.any cls = false) : (atLeastOne cls).TakesOnly taken rest :=
  fun _ _ _ _ => attempt_atLeastOne hne (List.all_eq_true.mp htaken) (forall_head? hrest)

lemma TakesOnly.append (hp : p.TakesOnly taken (taken' ++ rest)) (hq : q.TakesOnly taken' rest) :
    (p ++ q).TakesOnly (taken ++ taken') rest := by
  intro index groups α k
  rw [attempt_append, List.append_assoc, hp, hq, List.length_append, Nat.add_assoc]

lemma TakesOnly.fails_append (hp : p.TakesOnly taken rest) (hq : q.Fails rest) :
    (p ++ q).Fails (taken ++ rest) := by
  intro index groups α k
  rw [attempt_append, hp, hq]

/-! ## Taking -/

/-- Before `rest`, the pattern takes `taken` and fills the groups `added` if what follows matches
then. -/
def Takes (p : Pattern) (taken rest : List Char) (added : Groups) : Prop :=
  ∀ (index : Nat) (groups : Groups) {α : Type} (k : Cursor → Groups → Option α) (x : α),
    k ⟨index + taken.length, rest⟩ (added ++ groups) = some x →
      p.attempt ⟨index, taken ++ rest⟩ groups k = some x

lemma TakesOnly.takes (hp : p.TakesOnly taken rest) : p.Takes taken rest [] :=
  fun index groups _ k _ hk => (hp index groups k).trans hk

lemma Takes.append (hp : p.Takes taken (taken' ++ rest) added) (hq : q.Takes taken' rest added') :
    (p ++ q).Takes (taken ++ taken') rest (added' ++ added) := by
  intro index groups α k x hk
  rw [attempt_append, List.append_assoc]
  refine hp index groups _ x (hq _ _ k x ?_)
  rwa [Nat.add_assoc, ← List.length_append, ← List.append_assoc]

/-- The next part takes its text in one way. -/
lemma Takes.pass (hp : p.Takes taken (taken' ++ rest) added) (hq : q.TakesOnly taken' rest) :
    (p ++ q).Takes (taken ++ taken') rest added := hp.append hq.takes

/-- The next part takes nothing. -/
lemma Takes.leave (hp : p.Takes taken rest added) (hq : q.Takes [] rest []) :
    (p ++ q).Takes taken rest added := by
  have h : (p ++ q).Takes (taken ++ []) rest ([] ++ added) := Takes.append hp hq
  rwa [List.append_nil] at h

lemma Takes.group (hp : p.Takes taken rest added) (n : Nat) :
    (group n p).Takes taken rest ((n, taken) :: added) := by
  intro index groups α k x hk
  rw [attempt_group]
  refine hp index groups _ x ?_
  rwa [textTo_append]

lemma Takes.left (hp : p.Takes taken rest added) (q : Pattern) :
    (choice p q).Takes taken rest added := by
  intro index groups α k x hk
  rw [attempt, hp index groups k x hk]

lemma Takes.right (hp : p.Fails (taken ++ rest)) (hq : q.Takes taken rest added) :
    (choice p q).Takes taken rest added := by
  intro index groups α k x hk
  rw [attempt, hp]
  exact hq index groups k x hk

lemma Takes.maybe (hp : p.Takes taken rest added) : (maybe p).Takes taken rest added :=
  hp.left .empty

lemma Fails.maybe (hp : p.Fails rest) : (maybe p).Takes [] rest [] :=
  Takes.right hp fun _ _ _ _ _ hk => hk

/-! ## Matches -/

lemma Fails.matchAt? (h : p.Fails text) (index : Nat) : p.matchAt? ⟨index, text⟩ = none :=
  h index [] _

lemma Takes.matchAt? (h : p.Takes taken rest added) (index : Nat) :
    p.matchAt? ⟨index, taken ++ rest⟩ =
      some ⟨⟨index, taken ++ rest⟩, ⟨index + taken.length, rest⟩, added⟩ := by
  refine h index [] _ _ ?_
  rw [List.append_nil]

end DirectoryNotes.Pattern
