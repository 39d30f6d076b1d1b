import DirectoryNotes.Proofs.Pattern.Progress
import DirectoryNotes.Proofs.Text.Returns

/-!
# Patterns side by side

A pattern is tried on a text and on the same text with returns, side by side. The two cursors need
not stay at the same place: a class may hold the return and not the line feed, or take the two
characters one by one. `Stand` tells how they lie to each other, and `Pattern.stands` computes from
the pattern alone how they may lie after it, or that they may get apart.

* `Stand.Relates`: the ways in which the cursors lie to each other;
* `Agree.run`, `Agree.one`: where a class of characters leads;
* `Agree.attempt`: continuations that agree wherever a pattern leads make attempts that agree.
-/

namespace DirectoryNotes

open Text (isBlank withReturns)

/-! ## Two cursors -/

/-- How a cursor in a text and one in the text with returns lie to each other. -/
inductive Stand where
  /-- At the same place, and no line ends there. -/
  | level
  /-- At the same line end. -/
  | lineEnd
  /-- At the same line end, but the return is passed. -/
  | between
  /-- The one has passed the line feed, the other only the return before it. -/
  | ahead
  /-- In the text as it was there is no way on; in the other, the return is passed. -/
  | alone
  deriving DecidableEq

namespace Stand

/-- The cursors lie to each other as said. -/
inductive Relates (text : List Char) : Stand → Cursor → Cursor → Prop where
  | level {before rest : List Char} : text = before ++ rest → rest.head? ≠ some '\n' →
      Relates text .level ⟨before.length, rest⟩ ⟨(withReturns before).length, withReturns rest⟩
  | lineEnd {before rest : List Char} : text = before ++ '\n' :: rest →
      Relates text .lineEnd ⟨before.length, '\n' :: rest⟩
        ⟨(withReturns before).length, '\r' :: '\n' :: withReturns rest⟩
  | between {before rest : List Char} : text = before ++ '\n' :: rest →
      Relates text .between ⟨before.length, '\n' :: rest⟩
        ⟨(withReturns before).length + 1, '\n' :: withReturns rest⟩
  | ahead {before rest : List Char} : text = before ++ '\n' :: rest →
      Relates text .ahead ⟨before.length + 1, rest⟩
        ⟨(withReturns before).length + 1, '\n' :: withReturns rest⟩
  | alone {here : Cursor} {index : Nat} {rest : List Char} :
      Relates text .alone here ⟨index, '\n' :: rest⟩

variable {text before rest : List Char} {s : Stand} {here here' there there' : Cursor}

/-- The stands at which both cursors are at the same place. -/
def same : List Stand := [.level, .lineEnd]

lemma exists_relates_same (h : text = before ++ rest) : ∃ s ∈ same,
    s.Relates text ⟨before.length, rest⟩ ⟨(withReturns before).length, withReturns rest⟩ := by
  cases rest with
  | nil => exact ⟨.level, by decide, .level h (by decide)⟩
  | cons c cs =>
    by_cases hc : c = '\n'
    · subst hc
      exact ⟨.lineEnd, by decide, .lineEnd h⟩
    · exact ⟨.level, by decide, .level h fun heq => hc (Option.some.inj heq)⟩

/-- Cursors at the same place have the same texts before and behind them, up to line ends. -/
lemma Relates.exists_same (h : s.Relates text here here') (hs : s ∈ same) :
    ∃ before, text = before ++ here.rest ∧ here.index = before.length ∧
      here' = ⟨(withReturns before).length, withReturns here.rest⟩ := by
  cases h with
  | level htext _ => exact ⟨_, htext, rfl, rfl⟩
  | lineEnd htext => exact ⟨_, htext, rfl, rfl⟩
  | between _ => exact absurd hs (by decide)
  | ahead _ => exact absurd hs (by decide)
  | alone => exact absurd hs (by decide)

/-- The stretches between two places are the same up to line ends. -/
lemma textTo_withReturns {after more : List Char} (h : before ++ rest = after ++ more) :
    Cursor.textTo ⟨(withReturns before).length, withReturns rest⟩
        ⟨(withReturns after).length, withReturns more⟩ =
      withReturns (Cursor.textTo ⟨before.length, rest⟩ ⟨after.length, more⟩) := by
  unfold Cursor.textTo
  rcases List.append_eq_append_iff.mp h with ⟨taken, rfl, rfl⟩ | ⟨taken, rfl, rfl⟩
  · simp
  · simp

/-- The result in the text as it was, where there is a way on in it. -/
def left {α : Type} : Stand → Option α → Option α
  | .alone, _ => none
  | _, found => found

lemma left_or {α : Type} (a b : Option α) : s.left (a.or b) = (s.left a).or (s.left b) := by
  cases s <;> rfl

end Stand

/-- The groups with a return before every line feed in their texts. -/
def Groups.withReturns (groups : Groups) : Groups := groups.map fun g => (g.1, Text.withReturns g.2)

/-! ## Where a pattern leads -/

namespace Pattern

/-- The stands that a function leads to from any of those given. -/
def through (f : Stand → Option (List Stand)) : List Stand → Option (List Stand)
  | [] => some []
  | s :: rest =>
    match f s, through f rest with
    | some here, some there => some (here ++ there.filter (!here.contains ·))
    | _, _ => none

/-- Where the run of a class leads. -/
def runStands (cls : Char → Bool) : Stand → Option (List Stand)
  | .level | .lineEnd =>
    match cls '\r', cls '\n' with
    | true, true => some [.level]
    | true, false => some [.level, .between]
    | false, true => none
    | false, false => some Stand.same
  | .between =>
    match cls '\r', cls '\n' with
    | true, true => some [.level]
    | false, true => none
    | _, false => some [.between]
  | .ahead => if cls '\r' && cls '\n' then some [.level] else none
  | .alone => if cls '\n' then none else some [.alone]

/-- Where one character of a class leads. -/
def oneStands (cls : Char → Bool) : Stand → Option (List Stand)
  | .level => some Stand.same
  | .lineEnd =>
    match cls '\r', cls '\n' with
    | true, true => some [.ahead]
    | true, false => some [.alone]
    | false, true => none
    | false, false => some []
  | .between => some Stand.same
  | .ahead => none
  | .alone => if cls '\n' then none else some []

/-- Where a pattern leads from a stand, unless the cursors may get apart. What it is repeated for is
found among the two sets of stands that repetitions go round in. -/
def stands : Pattern → Stand → Option (List Stand)
  | .empty, s => some [s]
  | .lineEnd, .lineEnd | .lineEnd, .ahead => none
  | .lineEnd, s => some [s]
  | .one cls, s => oneStands cls s
  | .run cls, s => runStands cls s
  | .seq p q, s => (p.stands s).bind (through q.stands)
  | .choice p q, s =>
    match p.stands s, q.stands s with
    | some left, some right => some (left ++ right)
    | _, _ => none
  | .repeated p, s =>
    [Stand.same, [.level, .between]].find? fun round => round.contains s && decide (1 ≤ p.least) &&
      (through p.stands round).any fun after => after.all round.contains
  | .group _ p, s =>
    if Stand.same.contains s then (p.stands s).filter fun after => after.all Stand.same.contains
    else none

lemma exists_of_through {f : Stand → Option (List Stand)} {from_ after : List Stand}
    (h : through f from_ = some after) {s : Stand} (hs : s ∈ from_) :
    ∃ here, f s = some here ∧ here ⊆ after := by
  induction from_ generalizing after with
  | nil => cases hs
  | cons t rest ih =>
    rw [through] at h
    split at h
    · next here there hhere hthere =>
      obtain rfl := Option.some.inj h
      rcases List.mem_cons.mp hs with rfl | hs
      · exact ⟨here, hhere, List.subset_append_left _ _⟩
      · obtain ⟨found, hfound, hsub⟩ := ih hthere hs
        refine ⟨found, hfound, fun u hu => ?_⟩
        by_cases hmem : u ∈ here
        · exact List.mem_append_left _ hmem
        · exact List.mem_append_right _ (List.mem_filter.mpr ⟨hsub hu, by simpa using hmem⟩)
    · cases h

/-- What is repeated goes round in the stands that it leads to. -/
lemma exists_of_stands_repeated {p : Pattern} {s : Stand} {round : List Stand}
    (h : (Pattern.repeated p).stands s = some round) : s ∈ round ∧ 1 ≤ p.least ∧
      ∀ t ∈ round, ∃ found, p.stands t = some found ∧ found ⊆ round := by
  have hround := List.find?_some h
  rw [Bool.and_eq_true, Bool.and_eq_true, decide_eq_true_iff, List.contains_iff_mem,
    Option.any_eq_true_iff_get] at hround
  obtain ⟨⟨hs, hp⟩, hsome, hback⟩ := hround
  rw [List.all_eq_true] at hback
  refine ⟨hs, hp, fun t ht => ?_⟩
  obtain ⟨found, hfound, hsub⟩ := exists_of_through (Option.some_get hsome).symm ht
  exact ⟨found, hfound, fun u hu => List.contains_iff_mem.mp (hback u (hsub hu))⟩

/-- A group begins and ends where both cursors are at the same place. -/
lemma of_stands_group {p : Pattern} {n : Nat} {s : Stand} {after : List Stand}
    (h : (Pattern.group n p).stands s = some after) :
    s ∈ Stand.same ∧ p.stands s = some after ∧ after ⊆ Stand.same := by
  obtain ⟨hs, hfilter⟩ := Option.ite_none_right_eq_some.mp h
  obtain ⟨hp, hafter⟩ := Option.filter_eq_some_iff.mp hfilter
  rw [List.all_eq_true] at hafter
  exact ⟨List.contains_iff_mem.mp hs, hp, fun t ht => List.contains_iff_mem.mp (hafter t ht)⟩

end Pattern

/-! ## Attempts side by side -/

open Stand

variable {α β : Type} {R : α → β → Prop} {text : List Char} {bound : Nat} {s : Stand}
  {k : Cursor → Groups → Option α} {k' : Cursor → Groups → Option β}

/-- From cursors that lie so, with less than `bound` characters left, the two continuations have
results that are related, or none. -/
def Agree (R : α → β → Prop) (text : List Char) (bound : Nat) (s : Stand)
    (k : Cursor → Groups → Option α) (k' : Cursor → Groups → Option β) : Prop :=
  ∀ here here' groups, s.Relates text here here' → here.rest.length < bound →
    Option.Rel R (s.left (k here groups)) (k' here' groups.withReturns)

namespace Agree

lemma mono {bound' : Nat} (h : Agree R text bound s k k') (hle : bound' ≤ bound) :
    Agree R text bound' s k k' := fun here here' groups hs hlt =>
  h here here' groups hs (Nat.lt_of_lt_of_le hlt hle)

lemma rel {t : Stand} {there there' : Cursor} {groups : Groups} (h : Agree R text bound t k k')
    (ht : t ≠ .alone) (hrel : t.Relates text there there') (hlt : there.rest.length < bound) :
    Option.Rel R (k there groups) (k' there' groups.withReturns) := by
  have hagree := h there there' groups hrel hlt
  cases t with
  | alone => exact absurd rfl ht
  | _ => exact hagree

lemma rel_or {a b : Option α} {a' b' : Option β} (ha : Option.Rel R a a') (hb : Option.Rel R b b') :
    Option.Rel R (a.or b) (a'.or b') := by
  cases ha with
  | some h => exact .some h
  | none => exact hb

lemma length_newline (before : List Char) :
    (withReturns (before ++ ['\n'])).length = (withReturns before).length + 2 := by
  simp

lemma length_other {c : Char} (hc : c ≠ '\n') (before : List Char) :
    (withReturns (before ++ [c])).length = (withReturns before).length + 1 := by
  rw [Text.withReturns_append, Text.withReturns_cons hc, List.length_append]
  rfl

lemma runStands_level {cls : Char → Bool} {after : List Stand}
    (h : Pattern.runStands cls .level = some after) :
    (cls '\r' = true ∧ cls '\n' = true ∧ after = [.level]) ∨
      (cls '\r' = true ∧ cls '\n' = false ∧ after = [.level, .between]) ∨
        (cls '\r' = false ∧ cls '\n' = false ∧ after = same) := by
  unfold Pattern.runStands at h
  cases hreturn : cls '\r' <;> cases hnewline : cls '\n' <;> rw [hreturn, hnewline] at h
  · exact .inr (.inr ⟨rfl, rfl, (Option.some.inj h).symm⟩)
  · cases h
  · exact .inr (.inl ⟨rfl, rfl, (Option.some.inj h).symm⟩)
  · exact .inl ⟨rfl, rfl, (Option.some.inj h).symm⟩

/-- The two runs of a class from the same place end where the stands say. -/
lemma exists_afterRun_relates {cls : Char → Bool} {before rest : List Char} {after : List Stand}
    (h : Pattern.runStands cls .level = some after) (htext : text = before ++ rest) :
    ∃ t ∈ after, t ≠ .alone ∧ t.Relates text (Pattern.afterRun cls before.length rest)
      (Pattern.afterRun cls (withReturns before).length (withReturns rest)) := by
  have hcases := runStands_level h
  have hlevel : .level ∈ after := by
    rcases hcases with ⟨-, -, rfl⟩ | ⟨-, -, rfl⟩ | ⟨-, -, rfl⟩ <;> decide
  induction rest generalizing before with
  | nil => exact ⟨.level, hlevel, by decide, .level htext (by decide)⟩
  | cons c cs ih =>
    have hsplit : text = before ++ [c] ++ cs := by simp [htext]
    have hnext := ih hsplit
    by_cases hc : c = '\n'
    · subst hc
      rw [length_newline, List.length_append, List.length_singleton] at hnext
      rw [Text.withReturns_newline, Pattern.afterRun, Pattern.afterRun, Pattern.afterRun]
      rcases hcases with ⟨hreturn, hnewline, -⟩ | ⟨hreturn, hnewline, rfl⟩ | ⟨hreturn, hnewline, rfl⟩
      · rwa [if_pos hnewline, if_pos hreturn, if_pos hnewline]
      · rw [hreturn, hnewline]
        exact ⟨.between, by decide, by decide, .between htext⟩
      · rw [hreturn, hnewline]
        exact ⟨.lineEnd, by decide, by decide, .lineEnd htext⟩
    · rw [Text.withReturns_cons hc, Pattern.afterRun, Pattern.afterRun]
      by_cases hcls : cls c = true
      · rw [if_pos hcls, if_pos hcls]
        rwa [length_other hc, List.length_append] at hnext
      · rw [if_neg hcls, if_neg hcls, ← Text.withReturns_cons hc]
        exact ⟨.level, hlevel, by decide, .level htext fun heq => hc (Option.some.inj heq)⟩

/-- What is left after a run is no more than what was left before it. -/
lemma length_afterRun_lt (cls : Char → Bool) (index : Nat) {rest : List Char}
    (hlt : rest.length < bound) : (Pattern.afterRun cls index rest).rest.length < bound := by
  obtain ⟨taken, more, rfl, -, -, hrun⟩ := Pattern.exists_afterRun cls index rest
  rw [List.length_append] at hlt
  rw [hrun]
  exact Nat.lt_of_le_of_lt (Nat.le_add_left _ _) hlt

/-- From the same place, continuations that agree wherever the runs of a class end agree. -/
lemma rel_afterRun {cls : Char → Bool} {after : List Stand} {before rest : List Char}
    (h : Pattern.runStands cls .level = some after) (hk : ∀ t ∈ after, Agree R text bound t k k')
    (htext : text = before ++ rest) (hlt : rest.length < bound) (groups : Groups) :
    Option.Rel R (k (Pattern.afterRun cls before.length rest) groups)
      (k' (Pattern.afterRun cls (withReturns before).length (withReturns rest))
        groups.withReturns) := by
  obtain ⟨t, ht, halone, hrel⟩ := exists_afterRun_relates h htext
  exact (hk t ht).rel halone hrel (length_afterRun_lt cls _ hlt)

/-- From wherever the cursors stand, the two runs of a class end where the stands say. -/
lemma run {cls : Char → Bool} {after : List Stand} (h : Pattern.runStands cls s = some after)
    (hk : ∀ t ∈ after, Agree R text bound t k k') :
    Agree R text bound s (fun here groups => (Pattern.run cls).attempt here groups k)
      fun here groups => (Pattern.run cls).attempt here groups k' := by
  intro here here' groups hs hlt
  cases hs with
  | level htext hrest => exact rel_afterRun h hk htext hlt groups
  | lineEnd htext => exact rel_afterRun h hk htext hlt groups
  | @between before rest htext =>
    have hsplit : text = before ++ ['\n'] ++ rest := by simp [htext]
    show Option.Rel R (k (Pattern.afterRun cls _ ('\n' :: rest)) groups)
      (k' (Pattern.afterRun cls _ ('\n' :: withReturns rest)) groups.withReturns)
    rw [Pattern.afterRun, Pattern.afterRun]
    unfold Pattern.runStands at h
    cases hreturn : cls '\r' <;> cases hnewline : cls '\n' <;> rw [hreturn, hnewline] at h
    · obtain rfl := Option.some.inj h
      exact (hk .between List.mem_cons_self).rel (by decide) (.between htext) hlt
    · cases h
    · obtain rfl := Option.some.inj h
      exact (hk .between List.mem_cons_self).rel (by decide) (.between htext) hlt
    · have hstep : Pattern.runStands cls .level = some after := by
        unfold Pattern.runStands
        rwa [hreturn, hnewline]
      have hnext := rel_afterRun hstep hk hsplit (Nat.lt_of_succ_lt hlt) groups
      rwa [length_newline, List.length_append] at hnext
  | @ahead before rest htext =>
    have hsplit : text = before ++ ['\n'] ++ rest := by simp [htext]
    obtain ⟨hcls, hafter⟩ := Option.ite_none_right_eq_some.mp h
    obtain ⟨hreturn, hnewline⟩ := Bool.and_eq_true_iff.mp hcls
    have hstep : Pattern.runStands cls .level = some after := by
      unfold Pattern.runStands
      rwa [hreturn, hnewline]
    have hnext := rel_afterRun hstep hk hsplit hlt groups
    rw [length_newline, List.length_append] at hnext
    show Option.Rel R _ (k' (Pattern.afterRun cls _ ('\n' :: withReturns rest)) groups.withReturns)
    rwa [Pattern.afterRun, if_pos hnewline]
  | @alone here index rest =>
    obtain ⟨hnewline, hafter⟩ := Option.ite_none_left_eq_some.mp h
    obtain rfl := Option.some.inj hafter
    show Option.Rel R none (k' (Pattern.afterRun cls _ ('\n' :: rest)) groups.withReturns)
    rw [Pattern.afterRun, if_neg hnewline]
    exact hk .alone List.mem_cons_self here _ groups .alone hlt

/-- One character of a class leads where the stands say. -/
lemma one {cls : Char → Bool} {after : List Stand} (h : Pattern.oneStands cls s = some after)
    (hk : ∀ t ∈ after, Agree R text bound t k k') :
    Agree R text (bound + 1) s (fun here groups => (Pattern.one cls).attempt here groups k)
      fun here groups => (Pattern.one cls).attempt here groups k' := by
  have hsame : ∀ {before rest : List Char} (groups : Groups), after = same →
      text = before ++ rest → rest.length < bound →
        Option.Rel R (k ⟨before.length, rest⟩ groups)
          (k' ⟨(withReturns before).length, withReturns rest⟩ groups.withReturns) := by
    rintro before rest groups rfl htext hlt
    obtain ⟨t, ht, hrel⟩ := exists_relates_same htext
    exact (hk t ht).rel (fun heq => absurd (heq ▸ ht) (by decide)) hrel hlt
  intro here here' groups hs hlt
  cases hs with
  | @level before rest htext hrest =>
    cases rest with
    | nil => exact .none
    | cons c cs =>
      have hc : c ≠ '\n' := fun heq => hrest (congrArg some heq)
      have hsplit : text = before ++ [c] ++ cs := by simp [htext]
      rw [Text.withReturns_cons hc]
      show Option.Rel R (if cls c then _ else _) (if cls c then _ else _)
      split
      · have hnext := hsame groups (Option.some.inj h).symm hsplit (Nat.lt_of_succ_lt_succ hlt)
        rwa [length_other hc, List.length_append] at hnext
      · exact .none
  | @lineEnd before rest htext =>
    have hlt' : rest.length < bound := Nat.lt_of_succ_lt_succ hlt
    show Option.Rel R (if cls '\n' then _ else _) (if cls '\r' then _ else _)
    unfold Pattern.oneStands at h
    cases hreturn : cls '\r' <;> cases hnewline : cls '\n' <;> rw [hreturn, hnewline] at h
    · exact .none
    · cases h
    · obtain rfl := Option.some.inj h
      exact hk .alone List.mem_cons_self ⟨before.length + 1, rest⟩ _ groups .alone hlt'
    · obtain rfl := Option.some.inj h
      exact (hk .ahead List.mem_cons_self).rel (by decide) (.ahead htext) hlt'
  | @between before rest htext =>
    have hsplit : text = before ++ ['\n'] ++ rest := by simp [htext]
    show Option.Rel R (if cls '\n' then _ else _) (if cls '\n' then _ else _)
    split
    · have hnext := hsame groups (Option.some.inj h).symm hsplit (Nat.lt_of_succ_lt_succ hlt)
      rwa [length_newline, List.length_append] at hnext
    · exact .none
  | ahead htext => cases h
  | alone =>
    obtain ⟨hnewline, -⟩ := Option.ite_none_left_eq_some.mp h
    show Option.Rel R none (if cls '\n' then _ else _)
    rw [if_neg hnewline]
    exact .none

/-- A line ends at the one cursor if it does at the other, where the stands go on. -/
lemma lineEnd {after : List Stand} (h : Pattern.lineEnd.stands s = some after)
    (hk : ∀ t ∈ after, Agree R text bound t k k') :
    Agree R text bound s (fun here groups => Pattern.lineEnd.attempt here groups k)
      fun here groups => Pattern.lineEnd.attempt here groups k' := by
  intro here here' groups hs hlt
  cases hs with
  | @level before rest htext hrest =>
    obtain rfl := Option.some.inj h
    cases rest with
    | nil => exact (hk .level List.mem_cons_self).rel (by decide) (.level htext hrest) hlt
    | cons c cs =>
      have hc : c ≠ '\n' := fun heq => hrest (congrArg some heq)
      have hnone : ∀ index (cs : List Char), Cursor.atLineEnd ⟨index, c :: cs⟩ = false := by
        simp [Cursor.atLineEnd, hc]
      rw [Text.withReturns_cons hc]
      dsimp only
      rw [Pattern.attempt, Pattern.attempt, hnone, hnone]
      exact .none
  | lineEnd htext => cases h
  | between htext =>
    obtain rfl := Option.some.inj h
    exact (hk .between List.mem_cons_self).rel (by decide) (.between htext) hlt
  | ahead htext => cases h
  | @alone here index rest =>
    obtain rfl := Option.some.inj h
    exact hk .alone List.mem_cons_self here _ groups .alone hlt

/-- Either of two patterns is tried where both begin, and leads where one of them does. -/
lemma choice {p q : Pattern}
    (hp : Agree R text (bound + p.least) s (fun here groups => p.attempt here groups k)
      fun here groups => p.attempt here groups k')
    (hq : Agree R text (bound + q.least) s (fun here groups => q.attempt here groups k)
      fun here groups => q.attempt here groups k') :
    Agree R text (bound + (Pattern.choice p q).least) s
      (fun here groups => (Pattern.choice p q).attempt here groups k)
      fun here groups => (Pattern.choice p q).attempt here groups k' := by
  intro here here' groups hs hlt
  have hlt' : here.rest.length < bound + min p.least q.least := hlt
  dsimp only
  rw [Pattern.attempt_choice, Pattern.attempt_choice, Stand.left_or]
  exact rel_or (hp here here' groups hs (by omega)) (hq here here' groups hs (by omega))

/-- A pattern that goes round in some stands is repeated in them. -/
lemma repeated {p : Pattern} {round : List Stand} (hp : 1 ≤ p.least)
    (hround : ∀ {bound : Nat} {k : Cursor → Groups → Option α} {k' : Cursor → Groups → Option β},
      (∀ t ∈ round, Agree R text bound t k k') → ∀ t ∈ round,
        Agree R text (bound + p.least) t (fun here groups => p.attempt here groups k)
          fun here groups => p.attempt here groups k')
    (hk : ∀ t ∈ round, Agree R text bound t k k') :
    ∀ t ∈ round, Agree R text bound t
      (fun here groups => (Pattern.repeated p).attempt here groups k)
      fun here groups => (Pattern.repeated p).attempt here groups k' := by
  -- by induction on what is left: each round takes a character
  induction bound with
  | zero => exact fun _ _ _ _ _ _ hlt => absurd hlt (Nat.not_lt_zero _)
  | succ bound ih =>
    intro t ht here here' groups hrel hlt
    have hmore := hround (ih fun u hu => (hk u hu).mono (Nat.le_succ bound)) t ht
    dsimp only
    rw [Pattern.attempt_repeated hp, Pattern.attempt_repeated hp, Stand.left_or]
    exact rel_or (hmore here here' groups hrel (by omega)) (hk t ht here here' groups hrel hlt)

/-- A group keeps the same text on both sides, up to line ends, if its ends are the same places. -/
lemma group {p : Pattern} {n : Nat} {after : List Stand} (hs : s ∈ same) (hafter : after ⊆ same)
    (hp : ∀ {k : Cursor → Groups → Option α} {k' : Cursor → Groups → Option β},
      (∀ t ∈ after, Agree R text bound t k k') →
        Agree R text (bound + p.least) s (fun here groups => p.attempt here groups k)
          fun here groups => p.attempt here groups k')
    (hk : ∀ t ∈ after, Agree R text bound t k k') :
    Agree R text (bound + p.least) s
      (fun here groups => (Pattern.group n p).attempt here groups k)
      fun here groups => (Pattern.group n p).attempt here groups k' := by
  intro here here' groups hrel hlt
  obtain ⟨before, htext, hindex, rfl⟩ := hrel.exists_same hs
  obtain ⟨index, rest⟩ := here
  obtain rfl : index = before.length := hindex
  refine hp (fun t ht there there' groups hrel hlt => ?_) _ _ groups hrel hlt
  obtain ⟨beyond, htext', hindex', rfl⟩ := hrel.exists_same (hafter ht)
  obtain ⟨index', rest'⟩ := there
  obtain rfl : index' = beyond.length := hindex'
  dsimp only
  rw [textTo_withReturns (htext.symm.trans htext')]
  exact hk t ht _ _ ((n, _) :: groups) hrel hlt

/-- Continuations that agree wherever the pattern leads make attempts that agree. -/
theorem attempt {p : Pattern} {after : List Stand} (h : p.stands s = some after)
    (hk : ∀ t ∈ after, Agree R text bound t k k') :
    Agree R text (bound + p.least) s (fun here groups => p.attempt here groups k)
      fun here groups => p.attempt here groups k' := by
  induction p generalizing s after bound k k' with
  | empty =>
    obtain rfl := Option.some.inj h
    exact hk s List.mem_cons_self
  | lineEnd => exact lineEnd h hk
  | one cls => exact one h hk
  | run cls => exact run h hk
  | seq p q ihp ihq =>
    obtain ⟨between, hp, hq⟩ := Option.bind_eq_some_iff.mp h
    have hrest : ∀ t ∈ between, Agree R text (bound + q.least) t
        (fun here groups => q.attempt here groups k) fun here groups => q.attempt here groups k' := by
      intro t ht
      obtain ⟨found, hfound, hsub⟩ := Pattern.exists_of_through hq ht
      exact ihq hfound fun u hu => hk u (hsub hu)
    have hlength : bound + (Pattern.seq p q).least = bound + q.least + p.least := by
      show bound + (p.least + q.least) = _
      omega
    rw [hlength]
    exact ihp hp hrest
  | choice p q ihp ihq =>
    rw [Pattern.stands] at h
    split at h
    · next left right hleft hright =>
      obtain rfl := Option.some.inj h
      exact choice (ihp hleft fun t ht => hk t (List.mem_append_left _ ht))
        (ihq hright fun t ht => hk t (List.mem_append_right _ ht))
    · cases h
  | repeated p ih =>
    obtain ⟨hs, hp, hround⟩ := Pattern.exists_of_stands_repeated h
    refine repeated hp (fun hk t ht => ?_) hk s hs
    obtain ⟨found, hfound, hsub⟩ := hround t ht
    exact ih hfound fun u hu => hk u (hsub hu)
  | group n p ih =>
    obtain ⟨hs, hp, hafter⟩ := Pattern.of_stands_group h
    exact group hs hafter (fun hk => ih hp hk) hk

end Agree

end DirectoryNotes
