import DirectoryNotes.Pattern.Basic
import Mathlib.Data.List.Basic
import Mathlib.Tactic.Lemma

/-!
# What patterns match

A match either is known in advance, from the text that lies ahead, or tells what it was made of:

* `attempt_literal`, `attempt_atLeastOne`, `attempt_group`: patterns that the text ahead is known to
  match;
* `Pattern.takes`, `Pattern.takesInGroup`: the characters that a match and a group can hold.
  `attempt_eq_some` says that they hold no others, and `mem_group_of_mem_inLines` says it of all
  matches in a text.
-/

namespace DirectoryNotes

namespace Pattern

variable {α : Type} {cls : Char → Bool} {here there : Cursor} {groups : Groups}
  {k : Cursor → Groups → Option α} {x : α} {index n : Nat} {taken rest : List Char}

/-! ## Known matches -/

@[simp] lemma attempt_append (p q : Pattern) : (p ++ q).attempt here groups k =
    p.attempt here groups fun there groups => q.attempt there groups k := rfl

lemma attempt_literal (s : String) : (literal s).attempt ⟨index, s.toList ++ rest⟩ groups k =
    k ⟨index + s.toList.length, rest⟩ groups := by
  unfold literal
  generalize s.toList = chars
  induction chars generalizing index with
  | nil => rfl
  | cons c cs ih =>
    have hlength : index + (c :: cs).length = index + 1 + cs.length := by
      rw [List.length_cons]
      omega
    rw [List.foldr_cons, attempt, List.cons_append, attempt, hlength, ← ih]
    exact if_pos (beq_self_eq_true c)

lemma afterRun_append (htaken : ∀ c ∈ taken, cls c = true)
    (hrest : ∀ c ∈ rest.head?, cls c = false) :
    afterRun cls index (taken ++ rest) = ⟨index + taken.length, rest⟩ := by
  induction taken generalizing index with
  | nil =>
    cases rest with
    | nil => rfl
    | cons c cs => simp [afterRun, hrest c rfl]
  | cons c cs ih =>
    rw [List.cons_append, afterRun, if_pos (htaken c List.mem_cons_self),
      ih fun d hd => htaken d (List.mem_cons_of_mem _ hd), List.length_cons]
    congr 1
    omega

/-- A run ends where the class does. -/
lemma attempt_atLeastOne (hne : taken ≠ []) (htaken : ∀ c ∈ taken, cls c = true)
    (hrest : ∀ c ∈ rest.head?, cls c = false) :
    (atLeastOne cls).attempt ⟨index, taken ++ rest⟩ groups k =
      k ⟨index + taken.length, rest⟩ groups := by
  obtain ⟨c, cs, rfl⟩ := List.exists_cons_of_ne_nil hne
  have hrun : afterRun cls (index + 1) (cs ++ rest) = ⟨index + 1 + cs.length, rest⟩ :=
    afterRun_append (fun d hd => htaken d (List.mem_cons_of_mem _ hd)) hrest
  have hlength : index + (c :: cs).length = index + 1 + cs.length := by
    rw [List.length_cons]
    omega
  simp only [atLeastOne, attempt_append, attempt, List.cons_append, htaken c List.mem_cons_self,
    if_true, hrun, hlength]

/-- A group gets the text that its pattern took. -/
lemma attempt_group (p : Pattern) (n : Nat) : (group n p).attempt here groups k =
    p.attempt here groups fun there groups => k there ((n, here.textTo there) :: groups) := rfl

lemma textTo_append : Cursor.textTo ⟨index, taken ++ rest⟩ ⟨index + taken.length, rest⟩ = taken := by
  simp [Cursor.textTo]

/-! ## What a match is made of -/

/-- Whether a pattern can take a character. -/
def takes : Pattern → Char → Bool
  | .empty, _ | .lineEnd, _ => false
  | .one cls, c | .run cls, c => cls c
  | .seq p q, c | .choice p q, c => p.takes c || q.takes c
  | .repeated p, c | .group _ p, c => p.takes c

/-- Whether a character can stand in the text of a group. -/
def takesInGroup (n : Nat) : Pattern → Char → Bool
  | .empty, _ | .lineEnd, _ | .one _, _ | .run _, _ => false
  | .seq p q, c | .choice p q, c => p.takesInGroup n c || q.takesInGroup n c
  | .repeated p, c => p.takesInGroup n c
  | .group m p, c => m == n && p.takes c || p.takesInGroup n c

end Pattern

/-- From one place to a later one there are only characters of a class. -/
def Cursor.Passes (cls : Char → Bool) (here there : Cursor) : Prop :=
  ∃ taken, here.rest = taken ++ there.rest ∧ there.index = here.index + taken.length ∧
    ∀ c ∈ taken, cls c = true

namespace Cursor.Passes

variable {cls cls' : Char → Bool} {here there beyond : Cursor}

lemma refl (cls : Char → Bool) (here : Cursor) : Passes cls here here := ⟨[], rfl, rfl, by simp⟩

lemma trans (h : Passes cls here there) (h' : Passes cls there beyond) : Passes cls here beyond := by
  obtain ⟨taken, hrest, hindex, htaken⟩ := h
  obtain ⟨taken', hrest', hindex', htaken'⟩ := h'
  refine ⟨taken ++ taken', by rw [hrest, hrest', List.append_assoc], ?_, ?_⟩
  · rw [hindex', hindex, List.length_append, Nat.add_assoc]
  · intro c hc
    exact (List.mem_append.mp hc).elim (htaken c) (htaken' c)

lemma mono (h : Passes cls here there) (hcls : ∀ c, cls c = true → cls' c = true) :
    Passes cls' here there := by
  obtain ⟨taken, hrest, hindex, htaken⟩ := h
  exact ⟨taken, hrest, hindex, fun c hc => hcls c (htaken c hc)⟩

lemma mem_textTo (h : Passes cls here there) {c : Char} (hc : c ∈ here.textTo there) :
    cls c = true := by
  obtain ⟨taken, hrest, hindex, htaken⟩ := h
  refine htaken c ?_
  have htext : here.textTo there = taken := by
    unfold textTo
    rw [hrest, hindex, Nat.add_sub_cancel_left, List.take_left]
  rwa [htext] at hc

lemma afterRun (cls : Char → Bool) (index : Nat) (rest : List Char) :
    Passes cls ⟨index, rest⟩ (Pattern.afterRun cls index rest) := by
  induction rest generalizing index with
  | nil => exact .refl cls _
  | cons c cs ih =>
    rw [Pattern.afterRun]
    split
    · next hc => exact .trans ⟨[c], rfl, rfl, by simpa using hc⟩ (ih (index + 1))
    · exact .refl cls _

end Cursor.Passes

namespace Pattern

variable {α : Type} {p : Pattern} {here : Cursor} {groups : Groups}
  {k : Cursor → Groups → Option α} {x : α}

/-- The groups that a match has added hold only characters that the pattern puts there. -/
def Explains (p : Pattern) (added : Groups) : Prop :=
  ∀ g ∈ added, ∀ c ∈ g.2, p.takesInGroup g.1 c = true

/-- What a step of a match leaves: a later place, and groups that are explained by the pattern. -/
def Reaches (p : Pattern) (here : Cursor) (groups : Groups) (k : Cursor → Groups → Option α)
    (x : α) : Prop :=
  ∃ there added, k there (added ++ groups) = some x ∧ here.Passes p.takes there ∧ p.Explains added

lemma Reaches.widen {q : Pattern} (h : p.Reaches here groups k x)
    (htakes : ∀ c, p.takes c = true → q.takes c = true)
    (hgroup : ∀ n c, p.takesInGroup n c = true → q.takesInGroup n c = true) :
    q.Reaches here groups k x := by
  obtain ⟨there, added, hk, hpasses, hadded⟩ := h
  exact ⟨there, added, hk, hpasses.mono htakes, fun g hg c hc => hgroup _ c (hadded g hg c hc)⟩

lemma repeatThen_eq_some (hp : ∀ here groups (k : Cursor → Groups → Option α),
      p.attempt here groups k = some x → p.Reaches here groups k x) (bound : List Char)
    (h : repeatThen (fun here groups k => p.attempt here groups k) k bound here groups = some x) :
    p.Reaches here groups k x := by
  induction bound generalizing here groups with
  | nil => exact ⟨here, [], h, .refl _ here, by simp [Explains]⟩
  | cons _ bound ih =>
    rw [repeatThen] at h
    split at h
    · next found hfound =>
      obtain rfl := Option.some.inj h
      -- one more time, and then the times that are left
      obtain ⟨there, added, hk, hpasses, hadded⟩ := hp _ _ _ hfound
      obtain ⟨beyond, more, hk', hpasses', hmore⟩ := ih hk
      refine ⟨beyond, more ++ added, by rwa [List.append_assoc], hpasses.trans hpasses', ?_⟩
      exact fun g hg => (List.mem_append.mp hg).elim (hmore g) (hadded g)
    · exact ⟨here, [], h, .refl _ here, by simp [Explains]⟩

/-- A match takes only what its pattern can take, and so do its groups. -/
theorem attempt_eq_some (h : p.attempt here groups k = some x) : p.Reaches here groups k x := by
  induction p generalizing here groups k with
  | empty => exact ⟨here, [], h, .refl _ here, by simp [Explains]⟩
  | lineEnd =>
    rw [attempt] at h
    split at h
    · exact ⟨here, [], h, .refl _ here, by simp [Explains]⟩
    · cases h
  | one cls =>
    obtain ⟨index, rest⟩ := here
    rw [attempt] at h
    split at h
    · cases h
    · next c cs hrest =>
      obtain rfl : rest = c :: cs := hrest
      split at h
      · next hc =>
        exact ⟨⟨index + 1, cs⟩, [], h, ⟨[c], rfl, rfl, by simpa [takes] using hc⟩,
          by simp [Explains]⟩
      · cases h
  | run cls => exact ⟨_, [], h, .afterRun cls here.index here.rest, by simp [Explains]⟩
  | seq p q ihp ihq =>
    obtain ⟨there, added, hk, hpasses, hadded⟩ := ihp h
    obtain ⟨beyond, more, hk', hpasses', hmore⟩ := ihq hk
    refine ⟨beyond, more ++ added, by rwa [List.append_assoc],
      (hpasses.mono fun c hc => by simp [takes, hc]).trans
        (hpasses'.mono fun c hc => by simp [takes, hc]), fun g hg c hc => ?_⟩
    rcases List.mem_append.mp hg with hg | hg
    · simp [takesInGroup, hmore g hg c hc]
    · simp [takesInGroup, hadded g hg c hc]
  | choice p q ihp ihq =>
    rw [attempt] at h
    split at h
    · next found hfound =>
      obtain rfl := Option.some.inj h
      exact (ihp hfound).widen (fun c hc => by simp [takes, hc]) fun n c hc => by
        simp [takesInGroup, hc]
    · exact (ihq h).widen (fun c hc => by simp [takes, hc]) fun n c hc => by
        simp [takesInGroup, hc]
  | repeated p ih =>
    exact (repeatThen_eq_some (fun _ _ _ => ih) here.rest h).widen (fun c hc => hc) fun n c hc => hc
  | group m p ih =>
    obtain ⟨there, added, hk, hpasses, hadded⟩ := ih h
    refine ⟨there, (m, here.textTo there) :: added, hk, hpasses, fun g hg c hc => ?_⟩
    rcases List.mem_cons.mp hg with rfl | hg
    · simp [takesInGroup, hpasses.mem_textTo hc]
    · simp [takesInGroup, hadded g hg c hc]

/-! ## Matches -/

variable {m : Match} {n : Nat} {c : Char}

lemma mem_of_lookup_eq_some {groups : Groups} {text : List Char}
    (h : groups.lookup n = some text) : (n, text) ∈ groups := by
  induction groups with
  | nil => cases h
  | cons g rest ih =>
    rw [List.lookup_cons] at h
    split at h
    · next heq =>
      obtain rfl := Option.some.inj h
      rw [beq_iff_eq.mp heq]
      exact List.mem_cons_self
    · exact List.mem_cons_of_mem _ (ih h)

lemma mem_group_of_matchAt? (h : p.matchAt? here = some m) (hc : c ∈ (m.group n).toList) :
    p.takesInGroup n c = true := by
  obtain ⟨there, added, hk, -, hadded⟩ := attempt_eq_some h
  obtain rfl := Option.some.inj hk
  rw [Match.group, Match.group?, List.append_nil] at hc
  cases htext : added.lookup n with
  | none => simp [htext] at hc
  | some text => exact hadded _ (mem_of_lookup_eq_some htext) c (by simpa [htext] using hc)

/-- What a search finds it finds here, where a line begins, or from the next character on. There a line
begins behind a line feed, and behind a blank if one begins here. -/
lemma mem_inLinesFrom_cons {index skip : Nat} {fresh : Bool} {cs : List Char}
    (h : m ∈ p.inLinesFrom index fresh skip (c :: cs)) :
    (fresh = true ∧ Text.isBlank c = false ∧ p.matchAt? ⟨index, c :: cs⟩ = some m) ∨
      ∃ fresh' skip', m ∈ p.inLinesFrom (index + 1) fresh' skip' cs ∧
        (fresh' = true → c = '\n' ∨ fresh = true ∧ Text.isBlank c = true) := by
  rw [inLinesFrom] at h
  split at h
  · exact .inr ⟨_, _, h, fun hc => .inl (beq_iff_eq.mp hc)⟩
  · split at h
    · next hblank =>
      refine .inr ⟨_, _, h, fun hc => ?_⟩
      rcases Bool.or_eq_true_iff.mp hc with hc | hc
      · exact .inr ⟨hc, hblank⟩
      · exact .inl (beq_iff_eq.mp hc)
    · next hblank =>
      split at h
      · next found hfound =>
        rcases List.mem_cons.mp h with rfl | h
        · obtain ⟨hfresh, hmatch⟩ := Option.ite_none_right_eq_some.mp hfound
          exact .inl ⟨hfresh, by simpa using hblank, hmatch⟩
        · exact .inr ⟨_, _, h, fun hc => absurd hc Bool.false_ne_true⟩
      · exact .inr ⟨_, _, h, fun hc => absurd hc Bool.false_ne_true⟩

lemma exists_of_mem_inLinesFrom {index skip : Nat} {fresh : Bool} {text : List Char}
    (h : m ∈ p.inLinesFrom index fresh skip text) : ∃ here, p.matchAt? here = some m := by
  induction text generalizing index skip fresh with
  | nil => cases h
  | cons c cs ih =>
    rcases mem_inLinesFrom_cons h with ⟨-, -, hmatch⟩ | ⟨_, _, h, -⟩
    · exact ⟨_, hmatch⟩
    · exact ih h

/-- The text of a group, in any match of a text, holds only what the pattern puts there. -/
theorem mem_group_of_mem_inLines {text : List Char} (h : m ∈ p.inLines text)
    (hc : c ∈ (m.group n).toList) : p.takesInGroup n c = true := by
  obtain ⟨here, hhere⟩ := exists_of_mem_inLinesFrom h
  exact mem_group_of_matchAt? hhere hc

end Pattern

end DirectoryNotes
