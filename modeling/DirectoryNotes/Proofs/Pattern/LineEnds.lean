import DirectoryNotes.Proofs.Pattern.Rows
import DirectoryNotes.Proofs.Pattern.Stands

/-!
# Searches and line ends

Where the stands of a pattern are known, a search for it finds the same matches in a text and in the
text with returns, one by one and with the same groups up to line ends:

* `Pattern.rel_matchAt?`: at the same place;
* `Pattern.inLinesFrom_of_matchAt?`: where the search goes on after a match;
* `Pattern.FindsAlike`: from a place on, which `FindsAlike.newline`, `FindsAlike.blank`,
  `FindsAlike.passed` and `FindsAlike.matched` carry over one step of the search;
* `Pattern.forall₂_inLines`: in the whole texts.
-/

namespace DirectoryNotes

open Text (isBlank withReturns)

variable {text : List Char}

/-! ## Searches side by side -/

/-- Two matches with the same groups up to line ends, which end at cursors that lie to each other in
one of the ways given. -/
structure Match.Alike (text : List Char) (after : List Stand) (m m' : Match) : Prop where
  groups : m'.groups = m.groups.withReturns
  stop : ∃ t ∈ after, t.Relates text m.stop m'.stop

namespace Pattern

/-- The pattern takes something, and from the same place it leads to cursors of which neither has
lost the other. -/
structure KeepsPace (p : Pattern) (after : List Stand) : Prop where
  stands : p.stands .level = some after
  least : 1 ≤ p.least
  ends : .ahead ∉ after ∧ .alone ∉ after

variable {p : Pattern} {after : List Stand} {before rest taken : List Char} {index : Nat}
  {fresh : Bool} {m : Match} {c : Char} {cs : List Char}

lemma rel_matchAt? (hp : p.KeepsPace after) (htext : text = before ++ rest)
    (hrest : rest.head? ≠ some '\n') :
    Option.Rel (Match.Alike text after) (p.matchAt? ⟨before.length, rest⟩)
      (p.matchAt? ⟨(withReturns before).length, withReturns rest⟩) := by
  have hk : ∀ t ∈ after, Agree (Match.Alike text after) text (rest.length + 1) t
      (fun there groups => some ⟨⟨before.length, rest⟩, there, groups⟩)
      fun there groups =>
        some ⟨⟨(withReturns before).length, withReturns rest⟩, there, groups⟩ := by
    intro t ht there there' groups hrel _
    have hleft : ∀ found : Option Match, t.left found = found := by
      intro found
      cases t with
      | alone => exact absurd ht hp.ends.2
      | _ => rfl
    rw [hleft]
    exact .some ⟨rfl, t, ht, hrel⟩
  exact (Agree.attempt hp.stands hk).rel (by decide) (.level htext hrest)
    (Nat.lt_of_lt_of_le (Nat.lt_succ_self _) (Nat.le_add_right _ _))

/-- What a match took is passed over; a line begins behind it if it ends in a line feed. -/
lemma inLinesFrom_passed (taken : List Char) :
    p.inLinesFrom index fresh taken.length (taken ++ rest) =
      p.inLinesFrom (index + taken.length) ((taken.getLast?.map (· == '\n')).getD fresh) 0 rest := by
  induction taken generalizing index fresh with
  | nil => rfl
  | cons c cs ih =>
    have hindex : index + (c :: cs).length = index + 1 + cs.length := by
      rw [List.length_cons]
      omega
    have hlast : (cs.getLast?.map (· == '\n')).getD (c == '\n') =
        ((c :: cs).getLast?.map (· == '\n')).getD fresh := by
      rw [List.getLast?_cons]
      cases cs.getLast? <;> rfl
    have hskip : (c :: cs).length > 0 := Nat.zero_lt_succ _
    rw [List.cons_append, inLinesFrom, if_pos hskip, hindex, ← hlast]
    exact ih

/-- After a match, the search goes on where it ends. -/
lemma inLinesFrom_of_matchAt? (hleast : 1 ≤ p.least) (hc : isBlank c = false)
    (hm : p.matchAt? ⟨index, c :: cs⟩ = some m) :
    ∃ taken, c :: cs = taken ++ m.stop.rest ∧ m.stop.index = index + taken.length ∧ taken ≠ [] ∧
      p.inLinesFrom index true 0 (c :: cs) =
        m :: p.inLinesFrom m.stop.index (taken.getLast? == some '\n') 0 m.stop.rest := by
  obtain ⟨taken, rest, htext, hspans, hstart, hstop⟩ := exists_of_matchAt? hm
  have hlength : m.length = taken.length := by
    rw [Match.length, hstart, hstop]
    exact Nat.add_sub_cancel_left _ _
  have htaken := least_le_of_spans hspans
  cases taken with
  | nil => exact absurd (Nat.le_trans hleast htaken) (Nat.lt_irrefl 0)
  | cons d ds =>
    obtain ⟨rfl, rfl⟩ := List.cons_eq_cons.mp (htext.trans List.cons_append)
    have hindex : index + (c :: ds).length = index + 1 + ds.length := by
      rw [List.length_cons]
      omega
    have hlast : (ds.getLast?.map (· == '\n')).getD false = ((c :: ds).getLast? == some '\n') := by
      cases ds with
      | nil =>
        have hne : c ≠ '\n' := by
          rintro rfl
          exact absurd hc (by decide)
        simp [hne]
      | cons e es =>
        rw [List.getLast?_cons_cons, List.getLast?_cons]
        rfl
    refine ⟨c :: ds, by rw [hstop]; rfl, by rw [hstop], List.cons_ne_nil _ _, ?_⟩
    rw [hstop, inLinesFrom, if_neg (Nat.lt_irrefl 0), if_neg (by simp [hc]), if_pos rfl, hm]
    show m :: p.inLinesFrom (index + 1) false (m.length - 1) (ds ++ rest) =
      m :: p.inLinesFrom (index + (c :: ds).length) ((c :: ds).getLast? == some '\n') 0 rest
    rw [hlength, List.length_cons, Nat.add_sub_cancel, inLinesFrom_passed, hlast, ← hindex,
      List.length_cons]

lemma inLinesFrom_of_no_match (hc : isBlank c = false)
    (hnone : fresh = true → p.matchAt? ⟨index, c :: cs⟩ = none) :
    p.inLinesFrom index fresh 0 (c :: cs) = p.inLinesFrom (index + 1) false 0 cs := by
  rw [inLinesFrom, if_neg (Nat.lt_irrefl 0), if_neg (by simp [hc])]
  cases fresh with
  | false => rfl
  | true => rw [if_pos rfl, hnone rfl]

lemma inLinesFrom_blank (hc : isBlank c = true) : p.inLinesFrom index fresh 0 (c :: cs) =
    p.inLinesFrom (index + 1) (fresh || c == '\n') 0 cs := by
  rw [inLinesFrom, if_neg (Nat.lt_irrefl 0), if_pos hc]

lemma getLast?_withReturns (s : List Char) : (withReturns s).getLast? = s.getLast? := by
  induction s using List.reverseRecOn with
  | nil => rfl
  | append_singleton cs c ih =>
    by_cases hc : c = '\n'
    · simp [hc]
    · simp [Text.withReturns_cons hc]

/-- From a place in the text, the search finds the same as from that place in the text with
returns. -/
def FindsAlike (p : Pattern) (after : List Stand) (text before rest : List Char) (fresh : Bool) :
    Prop :=
  List.Forall₂ (Match.Alike text after) (p.inLinesFrom before.length fresh 0 rest)
    (p.inLinesFrom (withReturns before).length fresh 0 (withReturns rest))

/-- The search goes on behind two matches that are alike as it goes on in the text. -/
lemma forall₂_behind {m' : Match} (hm : Match.Alike text after m m') (hafter : p.KeepsPace after)
    {taken' : List Char} (htext : text = before ++ (taken ++ m.stop.rest))
    (hindex : m.stop.index = before.length + taken.length)
    (htext' : withReturns (taken ++ m.stop.rest) = taken' ++ m'.stop.rest)
    (hgo : ∀ (before rest : List Char) (fresh : Bool), rest.length ≤ m.stop.rest.length →
      text = before ++ rest → p.FindsAlike after text before rest fresh) :
    List.Forall₂ (Match.Alike text after)
      (p.inLinesFrom m.stop.index (taken.getLast? == some '\n') 0 m.stop.rest)
      (p.inLinesFrom m'.stop.index (taken'.getLast? == some '\n') 0 m'.stop.rest) := by
  obtain ⟨t, ht, hrel⟩ := hm.stop
  generalize m.stop = stop at *
  generalize m'.stop = stop' at *
  have hsame : t ∈ Stand.same → List.Forall₂ (Match.Alike text after)
      (p.inLinesFrom stop.index (taken.getLast? == some '\n') 0 stop.rest)
      (p.inLinesFrom stop'.index (taken'.getLast? == some '\n') 0 stop'.rest) := by
    intro hsame
    obtain ⟨beyond, hbeyond, hindex', rfl⟩ := hrel.exists_same hsame
    have htaken : taken' = withReturns taken := by
      rw [Text.withReturns_append] at htext'
      exact (List.append_cancel_right htext').symm
    rw [htaken, getLast?_withReturns, hindex']
    exact hgo beyond stop.rest _ (Nat.le_refl _) hbeyond
  cases hrel with
  | level _ _ => exact hsame (by decide)
  | lineEnd _ => exact hsame (by decide)
  | @between beyond rest hbeyond =>
    -- a new line begins in both texts, whatever the matches took
    have hsplit : text = beyond ++ ['\n'] ++ rest := by simp [hbeyond]
    have hnext := hgo _ rest true (Nat.le_succ _) hsplit
    rw [FindsAlike, Agree.length_newline, List.length_append] at hnext
    rwa [inLinesFrom_newline, inLinesFrom_newline]
  | ahead _ => exact absurd ht hafter.ends.1
  | alone => exact absurd ht hafter.ends.2

namespace FindsAlike

/-- A line feed begins a line on both sides. -/
lemma newline (hgo : p.FindsAlike after text (before ++ ['\n']) cs true) :
    p.FindsAlike after text before ('\n' :: cs) fresh := by
  rw [FindsAlike, Agree.length_newline, List.length_append] at hgo
  rwa [FindsAlike, Text.withReturns_newline, inLinesFrom_newline, inLinesFrom_blank (by decide),
    inLinesFrom_newline]

section
variable (hc : c ≠ '\n')
include hc

lemma blank (hblank : isBlank c = true)
    (hgo : p.FindsAlike after text (before ++ [c]) cs fresh) :
    p.FindsAlike after text before (c :: cs) fresh := by
  have hfresh : (fresh || c == '\n') = fresh := by simp [hc]
  rw [FindsAlike, Agree.length_other hc, List.length_append] at hgo
  rwa [FindsAlike, Text.withReturns_cons hc, inLinesFrom_blank hblank, inLinesFrom_blank hblank,
    hfresh]

variable (hp : p.KeepsPace after) (htext : text = before ++ c :: cs) (hblank : isBlank c = false)
include hp htext hblank

/-- A character at which no match begins is passed on both sides. -/
lemma passed (hnone : fresh = true → p.matchAt? ⟨before.length, c :: cs⟩ = none)
    (hgo : p.FindsAlike after text (before ++ [c]) cs false) :
    p.FindsAlike after text before (c :: cs) fresh := by
  have hrel := rel_matchAt? hp htext fun heq => hc (Option.some.inj heq)
  rw [Text.withReturns_cons hc] at hrel
  have hnone' : fresh = true →
      p.matchAt? ⟨(withReturns before).length, c :: withReturns cs⟩ = none := by
    intro hfresh
    rw [hnone hfresh] at hrel
    generalize p.matchAt? ⟨_, c :: withReturns cs⟩ = found at hrel
    cases hrel
    rfl
  rw [FindsAlike, Agree.length_other hc, List.length_append] at hgo
  rwa [FindsAlike, Text.withReturns_cons hc, inLinesFrom_of_no_match hblank hnone,
    inLinesFrom_of_no_match hblank hnone']

/-- A match is found on both sides, and the searches go on behind it. -/
lemma matched (hm : p.matchAt? ⟨before.length, c :: cs⟩ = some m)
    (hgo : ∀ (before rest : List Char) (fresh : Bool), rest.length ≤ cs.length →
      text = before ++ rest → p.FindsAlike after text before rest fresh) :
    p.FindsAlike after text before (c :: cs) true := by
  have hrel := rel_matchAt? hp htext fun heq => hc (Option.some.inj heq)
  rw [hm, Text.withReturns_cons hc] at hrel
  rw [FindsAlike, Text.withReturns_cons hc]
  generalize hm' : p.matchAt? ⟨_, c :: withReturns cs⟩ = found at hrel
  cases hrel with
  | some halike =>
    obtain ⟨taken, hcons, hindex, hne, hfound⟩ := inLinesFrom_of_matchAt? hp.least hblank hm
    obtain ⟨taken', hcons', -, -, hfound'⟩ := inLinesFrom_of_matchAt? hp.least hblank hm'
    rw [hfound, hfound']
    rw [← Text.withReturns_cons hc, hcons] at hcons'
    have hshorter : m.stop.rest.length ≤ cs.length := by
      have hlength := congrArg List.length hcons
      have hpos := List.length_pos_iff.mpr hne
      rw [List.length_append, List.length_cons] at hlength
      omega
    exact .cons halike (forall₂_behind halike hp (hcons ▸ htext) hindex hcons'
      fun _ _ _ hle => hgo _ _ _ (Nat.le_trans hle hshorter))

end

end FindsAlike

/-- From every place, a pattern that keeps pace finds the same, by induction on what is left. -/
lemma findsAlike (hp : p.KeepsPace after) (htext : text = before ++ rest) :
    p.FindsAlike after text before rest fresh := by
  induction hn : rest.length using Nat.strong_induction_on generalizing before rest fresh with
  | h n ih =>
    subst hn
    cases rest with
    | nil => exact .nil
    | cons c cs =>
      have hgo : ∀ (before rest : List Char) (fresh : Bool), rest.length ≤ cs.length →
          text = before ++ rest → p.FindsAlike after text before rest fresh :=
        fun _ _ _ hle htext => ih _ (Nat.lt_succ_of_le hle) htext rfl
      have hnext := fun fresh => hgo (before ++ [c]) cs fresh (Nat.le_refl _) (by simp [htext])
      by_cases hc : c = '\n'
      · subst hc
        exact .newline (hnext true)
      · cases hblank : isBlank c with
        | true => exact .blank hc hblank (hnext fresh)
        | false =>
          cases fresh with
          | false => exact .passed hc hp htext hblank (fun h => nomatch h) (hnext false)
          | true =>
            cases hm : p.matchAt? ⟨before.length, c :: cs⟩ with
            | none => exact .passed hc hp htext hblank (fun _ => hm) (hnext false)
            | some m => exact .matched hc hp htext hblank hm hgo

/-- A pattern that keeps pace finds the same in a text and in the text with returns. -/
theorem forall₂_inLines (hp : p.KeepsPace after) (text : List Char) :
    List.Forall₂ (Match.Alike text after) (p.inLines text) (p.inLines (withReturns text)) :=
  findsAlike hp (List.nil_append text).symm

end Pattern

end DirectoryNotes
