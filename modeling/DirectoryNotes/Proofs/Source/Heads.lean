import DirectoryNotes.Proofs.Pattern.Spans
import DirectoryNotes.Proofs.Source.Parts

/-!
# Heads of declarations

A match of a declaration is taken apart at its name: a front with the words that declare, the name,
and what follows it.

* `IsWord`, `IsLead`: a word with the gap behind it, and one that may be missing;
* `isGap_of_spans`, `isName_of_spans`, `isWord_of_spans`: the stretches of a text that the parts span;
* `Heads`: a pattern is a front, then a name in a group, and then more;
* `exists_head`: the place and the parts of a match in a text.
-/

namespace DirectoryNotes

namespace Pattern

variable {p q r : Pattern} {taken rest : List Char} {added : Groups}

lemma spans_assoc :
    (p ++ q ++ r).Spans taken rest added ↔ (p ++ (q ++ r)).Spans taken rest added := by
  constructor
  · rintro ⟨_, third, _, inThird, rfl, rfl, ⟨first, second, inFirst, inSecond, rfl, rfl, hp, hq⟩, hr⟩
    refine ⟨first, second ++ third, inFirst, inThird ++ inSecond, by rw [List.append_assoc],
      by rw [List.append_assoc], ?_, second, third, inSecond, inThird, rfl, rfl, hq, hr⟩
    rwa [List.append_assoc]
  · rintro ⟨first, _, inFirst, _, rfl, rfl, hp, second, third, inSecond, inThird, rfl, rfl, hq, hr⟩
    refine ⟨first ++ second, third, inSecond ++ inFirst, inThird, by rw [List.append_assoc],
      by rw [List.append_assoc], ⟨first, second, inFirst, inSecond, rfl, rfl, ?_, hq⟩, hr⟩
    rwa [← List.append_assoc]

/-! ## Groups -/

/-- The numbers of the groups in a pattern. -/
def numbers : Pattern → List Nat
  | .empty | .lineEnd | .one _ | .run _ => []
  | .seq p q | .choice p q => p.numbers ++ q.numbers
  | .repeated p => p.numbers
  | .group n p => n :: p.numbers

lemma Spans.mem_numbers (h : p.Spans taken rest added) : ∀ g ∈ added, g.1 ∈ p.numbers := by
  induction p generalizing taken rest added with
  | empty | lineEnd | one | run =>
    obtain rfl : added = [] := by simp_all [Spans]
    exact fun g hg => nomatch hg
  | seq p q ihp ihq =>
    obtain ⟨first, second, inFirst, inSecond, -, rfl, hfirst, hsecond⟩ := h
    intro g hg
    rcases List.mem_append.mp hg with hg | hg
    · exact List.mem_append_right _ (ihq hsecond g hg)
    · exact List.mem_append_left _ (ihp hfirst g hg)
  | choice p q ihp ihq =>
    intro g hg
    rcases h with h | h
    · exact List.mem_append_left _ (ihp h g hg)
    · exact List.mem_append_right _ (ihq h g hg)
  | repeated p ih =>
    have hchain : Chain p.Spans rest taken added := h
    induction hchain with
    | nil => exact fun g hg => nomatch hg
    | cons hfirst htail ihtail =>
      intro g hg
      rcases List.mem_append.mp hg with hg | hg
      · exact ihtail htail g hg
      · exact ih hfirst g hg
  | group n p ih =>
    obtain ⟨inner, rfl, hinner⟩ := h
    intro g hg
    rcases List.mem_cons.mp hg with rfl | hg
    · exact List.mem_cons_self
    · exact List.mem_cons_of_mem _ (ih hinner g hg)

lemma lookup_append_of_notMem {before after : Groups} {n : Nat} (h : ∀ g ∈ before, g.1 ≠ n) :
    (before ++ after).lookup n = after.lookup n := by
  induction before with
  | nil => rfl
  | cons g before ih =>
    obtain ⟨hg, hbefore⟩ := List.forall_mem_cons.mp h
    rw [List.cons_append, List.lookup_cons, beq_false_of_ne hg.symm]
    exact ih hbefore

/-! ## Words -/

lemma eq_of_spans_literal {s : String} (h : (literal s).Spans taken rest added) :
    taken = s.toList ∧ added = [] := by
  unfold literal at h
  generalize s.toList = chars at h ⊢
  induction chars generalizing taken added with
  | nil => exact h
  | cons c cs ih =>
    obtain ⟨-, second, -, inSecond, rfl, rfl, ⟨⟨d, rfl, hd⟩, rfl⟩, hsecond⟩ := h
    obtain ⟨rfl, rfl⟩ := ih hsecond
    rw [beq_iff_eq.mp hd]
    exact ⟨rfl, rfl⟩

lemma exists_of_spans_oneOf {words : List String} (h : (oneOf words).Spans taken rest added) :
    ∃ word ∈ words, taken = word.toList ∧ added = [] := by
  induction words with
  | nil =>
    obtain ⟨⟨c, -, hc⟩, -⟩ := h
    cases hc
  | cons word words ih =>
    cases words with
    | nil => exact ⟨word, List.mem_cons_self, eq_of_spans_literal h⟩
    | cons other words =>
      rcases h with h | h
      · exact ⟨word, List.mem_cons_self, eq_of_spans_literal h⟩
      · obtain ⟨found, hfound, heq⟩ := ih h
        exact ⟨found, List.mem_cons_of_mem _ hfound, heq⟩

end Pattern

namespace Source

open Pattern
open Text (isBlank)

variable {p q front : Pattern} {taken rest between ident more text : List Char} {added : Groups}
  {word : String} {n : Nat} {m : Match}

/-! ## Characters -/

lemma isNameChar_of_isNameStart {c : Char} (hc : isNameStart c = true) : isNameChar c = true := by
  exact (Identifier.isNameChar_of_ascii (Identifier.isAsciiName_of_isNameStart hc)).1

/-- The code points of white space. -/
def blankCodes : List Nat :=
  [9, 10, 11, 12, 13, 0x20, 0x85, 0xA0, 0x1680, 0x2000, 0x2001, 0x2002, 0x2003, 0x2004, 0x2005,
    0x2006, 0x2007, 0x2008, 0x2009, 0x200A, 0x2028, 0x2029, 0x202F, 0x205F, 0x3000]

lemma isNameChar_of_isBlank {c : Char} (hc : isBlank c = true) : isNameChar c = false := by
  have hcode : c.toNat ∈ blankCodes := by
    simp only [isBlank, Bool.or_eq_true, Bool.and_eq_true, decide_eq_true_eq, beq_iff_eq] at hc
    simp only [blankCodes, List.mem_cons, List.not_mem_nil]
    omega
  have hother : ∀ n ∈ blankCodes, isNameChar (Char.ofNat n) = false := by decide +kernel
  have hchar := hother c.toNat hcode
  rwa [Char.ofNat_toNat] at hchar

/-! ## Stretches of a text -/

/-- A word and the gap behind it. -/
def IsWord (word : String) (taken rest : List Char) : Prop :=
  ∃ between, taken = word.toList ++ between ∧ IsGap between rest

/-- A word and the gap behind it, or nothing. -/
def IsLead (word : String) (taken rest : List Char) : Prop :=
  taken = [] ∨ IsWord word taken rest

/-- A gap ends a name. -/
lemma IsGap.head?_any (h : IsGap between rest) (more : List Char) :
    (between ++ more).head?.any isNameChar = false := by
  obtain ⟨c, cs, rfl⟩ := List.exists_cons_of_ne_nil h.nonempty
  exact isNameChar_of_isBlank (List.all_eq_true.mp h.blank c List.mem_cons_self)

lemma IsName.head?_any {cls : Char → Bool} (h : IsName ident rest)
    (hcls : ∀ c, isNameStart c = true → cls c = false) : (ident ++ rest).head?.any cls = false :=
  head?_any_of_begins h.begins hcls rest

lemma IsName.takeWhile (h : IsName ident rest) : (ident ++ rest).takeWhile isNameChar = ident := by
  have hrest : rest.takeWhile isNameChar = [] := by
    have hends := h.ends
    cases rest with
    | nil => rfl
    | cons c cs =>
      have hc : isNameChar c = false := hends
      rw [List.takeWhile_cons, hc]
      rfl
  rw [List.takeWhile_append_of_pos (List.all_eq_true.mp h.chars), hrest, List.append_nil]

lemma IsName.noBlank (h : IsName ident rest) : ident.all (!isBlank ·) = true := by
  refine List.all_eq_true.mpr fun c hc => ?_
  have hchar := List.all_eq_true.mp h.chars c hc
  cases hblank : isBlank c with
  | false => rfl
  | true =>
    rw [isNameChar_of_isBlank hblank] at hchar
    cases hchar

lemma isGap_of_spans (h : gap.Spans taken rest added) : IsGap taken rest ∧ added = [] := by
  obtain ⟨-, second, -, -, rfl, rfl, ⟨⟨c, rfl, hc⟩, rfl⟩, hblank, hends, rfl⟩ := h
  exact ⟨⟨List.cons_ne_nil _ _, by simpa [hc] using hblank, hends⟩, rfl⟩

lemma isName_of_spans (h : name.Spans taken rest added) : IsName taken rest ∧ added = [] := by
  obtain ⟨-, second, -, -, rfl, rfl, ⟨⟨c, rfl, hc⟩, rfl⟩, hchars, hends, rfl⟩ := h
  exact ⟨⟨hc, by simpa [isNameChar_of_isNameStart hc] using hchars, hends⟩, rfl⟩

lemma isWord_of_spans (h : (literal word ++ gap).Spans taken rest added) :
    IsWord word taken rest ∧ added = [] := by
  obtain ⟨_, between, _, _, rfl, rfl, hfirst, hsecond⟩ := h
  obtain ⟨rfl, rfl⟩ := eq_of_spans_literal hfirst
  obtain ⟨hgap, rfl⟩ := isGap_of_spans hsecond
  exact ⟨⟨between, rfl, hgap⟩, rfl⟩

lemma isLead_of_spans (h : (maybeWord word).Spans taken rest added) :
    IsLead word taken rest ∧ added = [] := by
  rcases h with h | ⟨rfl, rfl⟩
  · exact (isWord_of_spans h).imp_left .inr
  · exact ⟨.inl rfl, rfl⟩

/-- A word in a group that may be missing: the group tells whether it is there. -/
lemma isLead_of_spans_group (h : (maybe (.group n (literal word ++ gap))).Spans taken rest added) :
    taken = [] ∧ added = [] ∨ IsWord word taken rest ∧ added = [(n, taken)] := by
  rcases h with ⟨inner, rfl, h⟩ | h
  · obtain ⟨hword, rfl⟩ := isWord_of_spans h
    exact .inr ⟨hword, rfl⟩
  · exact .inl h

/-! ## Heads -/

/-- Whatever the pattern spans is a front, then a name in the group `n`, and then more, in which no
group of the front is filled. -/
def Heads (p front : Pattern) (n : Nat) : Prop :=
  ∀ (taken rest : List Char) (added : Groups), p.Spans taken rest added →
    ∃ before ident after inFront inAfter, taken = before ++ (ident ++ after) ∧
      added = inAfter ++ (n, ident) :: inFront ∧ front.Spans before (ident ++ (after ++ rest)) inFront ∧
      IsName ident (after ++ rest) ∧ ∀ g ∈ inAfter, g.1 ≠ n ∧ g.1 ∉ front.numbers

lemma heads_name (front : Pattern) (n : Nat) : Heads (front ++ .group n name) front n := by
  rintro _ rest _ ⟨before, ident, inFront, _, rfl, rfl, hfront, inner, rfl, hspans⟩
  obtain ⟨hname, rfl⟩ := isName_of_spans hspans
  exact ⟨before, ident, [], inFront, [], by rw [List.append_nil], rfl, hfront, hname,
    fun g hg => nomatch hg⟩

lemma Heads.append (h : Heads p front n)
    (hq : ∀ k ∈ q.numbers, k ≠ n ∧ k ∉ front.numbers) : Heads (p ++ q) front n := by
  rintro _ rest _ ⟨first, second, inFirst, inSecond, rfl, rfl, hfirst, hsecond⟩
  obtain ⟨before, ident, after, inFront, inAfter, rfl, rfl, hfront, hname, hafter⟩ := h _ _ _ hfirst
  rw [← List.append_assoc after] at hfront hname
  refine ⟨before, ident, after ++ second, inFront, inSecond ++ inAfter, ?_, ?_, hfront, hname, ?_⟩
  · simp only [List.append_assoc]
  · rw [List.append_assoc]
  · intro g hg
    rcases List.mem_append.mp hg with hg | hg
    · exact hq g.1 (hsecond.mem_numbers g hg)
    · exact hafter g hg

/-- Every match of a declaration in a text stands at the head of a line, and its name is in its
group. -/
lemma exists_head (hp : Heads p front n) (hn : n ∉ front.numbers) (hm : m ∈ p.inLines text) :
    ∃ line indent before ident more inFront, IsHead text line indent (before ++ (ident ++ more)) ∧
      front.Spans before (ident ++ more) inFront ∧ IsName ident more ∧ m.group n = .ofList ident ∧
      ∀ k ∈ front.numbers, m.group? k = inFront.lookup k := by
  obtain ⟨line, indent, taken, rest, hhead, hspans, -, -⟩ := exists_of_mem_inLines hm
  obtain ⟨before, ident, after, inFront, inAfter, rfl, hgroups, hfront, hname, hafter⟩ := hp _ _ _ hspans
  have hlookup : ∀ k, (∀ g ∈ inAfter, g.1 ≠ k) →
      m.group? k = ((n, ident) :: inFront).lookup k := fun k hk => by
    rw [Match.group?, hgroups, lookup_append_of_notMem hk]
  refine ⟨line, indent, before, ident, after ++ rest, inFront, ?_, hfront, hname, ?_, ?_⟩
  · simpa only [List.append_assoc] using hhead
  · rw [Match.group, hlookup n fun g hg => (hafter g hg).1, List.lookup_cons, beq_self_eq_true]
    rfl
  · intro k hk
    have hne : k ≠ n := fun h => hn (h ▸ hk)
    rw [hlookup k fun g hg h => (hafter g hg).2 (h ▸ hk), List.lookup_cons, beq_false_of_ne hne]

/-! ## Fronts -/

/-- The words that declare, in an exported declaration. -/
def declaringWord : Pattern :=
  .choice (literal "function" ++ maybe (blanks ++ char '*'))
    (.choice (literal "abstract" ++ gap ++ literal "class")
      (oneOf ["class", "interface", "const", "let", "var", "type", "enum"]))

/-- What an exported declaration begins with, up to its name. -/
def exportFront : Pattern :=
  literal "export" ++ gap ++ maybe (.group 1 (literal "default" ++ gap)) ++ maybeWord "declare"
    ++ maybeWord "async" ++ .group 2 declaringWord ++ gap

/-- What the export of a name as the default begins with. -/
def defaultFront : Pattern := literal "export" ++ gap ++ literal "default" ++ gap

/-- What a declared function begins with. -/
def functionFront : Pattern :=
  maybe (.group 1 (literal "export" ++ gap)) ++ maybeWord "default"
    ++ maybe (.group 2 (literal "async" ++ gap)) ++ literal "function" ++ blanks
    ++ maybe (char '*') ++ blanks

/-- What a name bound to an arrow function comes after. -/
def arrowFront : Pattern :=
  maybe (.group 1 (literal "export" ++ gap)) ++ oneOf ["const", "let", "var"] ++ gap

/-- What a class begins with. -/
def classFront : Pattern :=
  maybe (.group 1 (literal "export" ++ gap)) ++ maybeWord "default" ++ maybeWord "abstract"
    ++ literal "class" ++ gap

/-- What an interface begins with. -/
def interfaceFront : Pattern :=
  maybe (.group 1 (literal "export" ++ gap)) ++ maybeWord "declare" ++ literal "interface" ++ gap

lemma exportDeclaration_heads : Heads exportDeclaration exportFront 3 := heads_name _ 3

lemma exportDefaultName_heads : Heads exportDefaultName defaultFront 1 :=
  (heads_name _ 1).append (by decide)

lemma functionDeclaration_heads : Heads functionDeclaration functionFront 3 := by
  iterate 6 refine Heads.append ?_ (by decide)
  exact heads_name _ 3

lemma arrowFunction_heads : Heads arrowFunction arrowFront 2 := by
  iterate 9 refine Heads.append ?_ (by decide)
  exact heads_name _ 2

lemma classDeclaration_heads : Heads classDeclaration classFront 2 :=
  ((heads_name _ 2).append (by decide)).append (by decide)

lemma interfaceDeclaration_heads : Heads interfaceDeclaration interfaceFront 2 :=
  ((heads_name _ 2).append (by decide)).append (by decide)

end Source

end DirectoryNotes
