import DirectoryNotes.Proofs.Source.Heads

/-!
# Exports that go over a line end

The words of an export may stand in several lines. A later line that begins with `export` is then part
of it only if that word has the place of the name.

* `Phrase`: a text of blanks and of some words;
* `Phrase.cut`, `Phrase.eq_of_resumed`: a phrase and the name behind it, from a blank on;
* `group_eq_of_crossed`: the name of an export that goes over the beginning of such a line.
-/

namespace DirectoryNotes.Source

open Pattern
open Text (isBlank)

variable {p q : Pattern} {taken rest front ident more text : List Char} {added : Groups}
  {word : String} {words : List String} {m : Match}

/-! ## Phrases -/

/-- A text of blanks and words. -/
inductive Phrase (words : List String) : List Char → Prop where
  | nil : Phrase words []
  | blank {c : Char} {more : List Char} :
      isBlank c = true → Phrase words more → Phrase words (c :: more)
  | word {word : String} {more : List Char} :
      word ∈ words → Phrase words more → Phrase words (word.toList ++ more)

lemma Phrase.append {first second : List Char} (hfirst : Phrase words first)
    (hsecond : Phrase words second) : Phrase words (first ++ second) := by
  induction hfirst with
  | nil => exact hsecond
  | blank hc _ ih => exact .blank hc ih
  | word hword _ ih =>
    rw [List.append_assoc]
    exact .word hword ih

lemma Phrase.of_word (hword : word ∈ words) : Phrase words word.toList := by
  have h := Phrase.word hword .nil
  rwa [List.append_nil] at h

lemma Phrase.of_blank (h : taken.all isBlank = true) : Phrase words taken := by
  induction taken with
  | nil => exact .nil
  | cons c cs ih =>
    rw [List.all_cons, Bool.and_eq_true] at h
    exact .blank h.1 (ih h.2)

/-- Whatever the pattern spans is a phrase. -/
def Phrased (words : List String) (p : Pattern) : Prop :=
  ∀ (taken rest : List Char) (added : Groups), p.Spans taken rest added → Phrase words taken

lemma Phrased.append (hp : Phrased words p) (hq : Phrased words q) : Phrased words (p ++ q) := by
  rintro _ rest _ ⟨first, second, _, _, rfl, rfl, hfirst, hsecond⟩
  exact (hp _ _ _ hfirst).append (hq _ _ _ hsecond)

lemma Phrased.choice (hp : Phrased words p) (hq : Phrased words q) :
    Phrased words (.choice p q) := by
  rintro taken rest added (h | h)
  · exact hp _ _ _ h
  · exact hq _ _ _ h

lemma Phrased.maybe (hp : Phrased words p) : Phrased words (maybe p) :=
  hp.choice fun _ _ _ h => h.1 ▸ .nil

lemma Phrased.group (hp : Phrased words p) (n : Nat) : Phrased words (.group n p) := by
  rintro taken rest _ ⟨inner, rfl, h⟩
  exact hp _ _ _ h

lemma phrased_blanks : Phrased words blanks := fun _ _ _ h => .of_blank h.1

lemma phrased_gap : Phrased words gap := fun _ _ _ h => .of_blank (isGap_of_spans h).1.blank

lemma phrased_oneOf {some : List String} (h : some ⊆ words) : Phrased words (oneOf some) := by
  intro taken rest added hspans
  obtain ⟨word, hword, rfl, -⟩ := exists_of_spans_oneOf hspans
  exact .of_word (h hword)

lemma phrased_literal (hword : word ∈ words) : Phrased words (literal word) :=
  phrased_oneOf (List.cons_subset.mpr ⟨hword, List.nil_subset _⟩)

/-! ## From a blank on -/

/-- What ends with a blank does not end within a text without blanks. -/
lemma exists_of_append_eq {first second a b : List Char} (hfirst : first.all (!isBlank ·) = true)
    (h : first ++ second = a ++ b) (ha : a.getLast?.any isBlank = true) :
    ∃ a', a = first ++ a' ∧ a'.getLast?.any isBlank = true ∧ second = a' ++ b := by
  have hwithin : ∀ c, a ++ c ≠ first := by
    rintro c rfl
    rw [List.all_append, Bool.and_eq_true] at hfirst
    cases hlast : a.getLast? with
    | none => simp [hlast] at ha
    | some d =>
      rw [hlast] at ha
      have hd := List.all_eq_true.mp hfirst.1 d (List.mem_of_getLast? hlast)
      have hblank : isBlank d = true := ha
      simp [hblank] at hd
  rcases List.append_eq_append_iff.mp h with ⟨a', rfl, hsecond⟩ | ⟨c, hc, -⟩
  · refine ⟨a', rfl, ?_, hsecond⟩
    cases a' with
    | nil => exact absurd (by simp) (hwithin [])
    | cons d ds => rwa [List.getLast?_append_of_ne_nil _ (List.cons_ne_nil d ds)] at ha
  · exact absurd hc.symm (hwithin c)

/-- From a blank on, a phrase with a name behind it is a phrase with the name behind it. -/
lemma Phrase.cut {a b : List Char} (hphrase : Phrase words front)
    (hwords : ∀ word ∈ words, word.toList.all (!isBlank ·) = true)
    (hident : ident.all (!isBlank ·) = true) (h : front ++ ident = a ++ b)
    (ha : a.getLast?.any isBlank = true) : ∃ front', Phrase words front' ∧ b = front' ++ ident := by
  -- a cut behind a blank lies within no word, so it leaves out whole words and blanks
  induction hphrase generalizing a with
  | nil =>
    rw [List.nil_append, ← List.append_nil ident] at h
    obtain ⟨a', -, hlast, hnil⟩ := exists_of_append_eq hident h ha
    rw [(List.append_eq_nil_iff.mp hnil.symm).1] at hlast
    cases hlast
  | @blank c more hc hmore ih =>
    cases a with
    | nil => cases ha
    | cons d ds =>
      obtain ⟨-, htail⟩ := List.cons.inj h
      cases ds with
      | nil => exact ⟨more, hmore, htail.symm⟩
      | cons e es => exact ih htail (by rwa [List.getLast?_cons_cons] at ha)
  | word hword _ ih =>
    rw [List.append_assoc] at h
    obtain ⟨a', -, hlast, htail⟩ := exists_of_append_eq (hwords _ hword) h ha
    exact ih htail hlast

lemma eq_nil_of_append_eq {indent tail : List Char} (h : taken = indent ++ tail)
    (hindent : indent.all isBlank = true) (htaken : taken.head?.any isBlank = false) :
    indent = [] := by
  cases indent with
  | nil => rfl
  | cons c cs =>
    have hc : isBlank c = true := List.all_eq_true.mp hindent c List.mem_cons_self
    have hblank : isBlank c = false := by rwa [h] at htaken
    rw [hc] at hblank
    cases hblank

/-- Neither text begins with the other one. -/
def Differs (first second : List Char) : Prop :=
  first.isPrefixOf second = false ∧ second.isPrefixOf first = false

lemma Differs.append_ne {first second : List Char} (h : Differs first second)
    (tail tail' : List Char) : first ++ tail ≠ second ++ tail' := by
  intro heq
  rcases List.append_eq_append_iff.mp heq with ⟨c, rfl, -⟩ | ⟨c, rfl, -⟩
  · exact absurd h.1 (by rw [List.isPrefixOf_iff_prefix.mpr (List.prefix_append ..)]; decide)
  · exact absurd h.2 (by rw [List.isPrefixOf_iff_prefix.mpr (List.prefix_append ..)]; decide)

/-- Where a phrase with a name behind it is blanks with a token behind them, the name is there where
the token is, unless the token may begin like one of the words. -/
lemma Phrase.eq_of_resumed {indent token : List Char} (hphrase : Phrase words front)
    (hwords : ∀ word ∈ words, word.toList.all (!isBlank ·) = true)
    (htoken : ∀ word ∈ words, Differs word.toList token)
    (h : front ++ (ident ++ rest) = indent ++ (token ++ more)) (hindent : indent.all isBlank = true)
    (hmore : (token ++ more).head?.any isBlank = false)
    (hident : (ident ++ rest).head?.any isBlank = false) : ident ++ rest = token ++ more := by
  induction hphrase generalizing indent with
  | nil =>
    obtain rfl := eq_nil_of_append_eq h hindent hident
    exact h
  | @blank c _ hc _ ih =>
    cases indent with
    | nil =>
      have hblank : isBlank c = false := by rwa [← List.nil_append (token ++ more), ← h] at hmore
      rw [hc] at hblank
      cases hblank
    | cons d ds =>
      rw [List.all_cons, Bool.and_eq_true] at hindent
      exact ih (List.cons.inj h).2 hindent.2
  | @word word tail hword _ ih =>
    rw [List.append_assoc] at h
    have hhead : (word.toList ++ (tail ++ (ident ++ rest))).head?.any isBlank = false := by
      have hdiffers := (htoken word hword).1
      have hplain := hwords word hword
      cases hchars : word.toList with
      | nil =>
        rw [hchars] at hdiffers
        cases hdiffers
      | cons c cs =>
        rw [hchars, List.all_cons, Bool.and_eq_true] at hplain
        simpa using hplain.1
    obtain rfl := eq_nil_of_append_eq h hindent hhead
    exact absurd h ((htoken word hword).append_ne _ _)

/-! ## Exports -/

/-- The words of an exported declaration behind the first one. -/
def laterWords : List String :=
  ["default", "declare", "async", "function", "*", "abstract", "class", "interface", "const", "let",
    "var", "type", "enum"]

/-- Whatever the pattern spans is a word and a phrase behind it. -/
def Opens (word : String) (words : List String) (p : Pattern) : Prop :=
  ∀ (taken rest : List Char) (added : Groups), p.Spans taken rest added →
    ∃ tail, taken = word.toList ++ tail ∧ Phrase words tail

lemma Opens.append (hp : Opens word words p) (hq : Phrased words q) :
    Opens word words (p ++ q) := by
  rintro _ rest _ ⟨first, second, _, _, rfl, rfl, hfirst, hsecond⟩
  obtain ⟨tail, rfl, htail⟩ := hp _ _ _ hfirst
  exact ⟨tail ++ second, by rw [List.append_assoc], htail.append (hq _ _ _ hsecond)⟩

lemma opens_literal : Opens word words (literal word) := fun _ _ _ h =>
  ⟨[], by rw [(eq_of_spans_literal h).1, List.append_nil], .nil⟩

lemma phrased_word (hword : word ∈ words) : Phrased words (literal word ++ gap) :=
  (phrased_literal hword).append phrased_gap

lemma phrased_star (hstar : "*" ∈ words) : Phrased words (char '*') := by
  rintro _ _ _ ⟨⟨c, rfl, hc⟩, -⟩
  rw [beq_iff_eq.mp hc]
  exact Phrase.of_word hstar

lemma phrased_declaringWord : Phrased laterWords declaringWord :=
  ((phrased_literal (by decide)).append
    (phrased_blanks.append (phrased_star (by decide))).maybe).choice
      (((phrased_word (by decide)).append (phrased_literal (by decide))).choice
        (phrased_oneOf (by decide)))

lemma opens_exportFront : Opens "export" laterWords exportFront :=
  (((((opens_literal.append phrased_gap).append ((phrased_word (by decide)).group 1).maybe).append
    (phrased_word (by decide)).maybe).append (phrased_word (by decide)).maybe).append
      (phrased_declaringWord.group 2)).append phrased_gap

/-! ## Over the beginning of a line -/

lemma exists_of_append_eq_of_le {a b c d : List Char} (h : a ++ b = c ++ d)
    (hle : a.length ≤ c.length) : ∃ e, c = a ++ e ∧ b = e ++ d := by
  rcases List.append_eq_append_iff.mp h with ⟨e, hc, hb⟩ | ⟨e, rfl, hd⟩
  · exact ⟨e, hc, hb⟩
  · rw [List.length_append] at hle
    obtain rfl : e = [] := List.eq_nil_of_length_eq_zero (by omega)
    exact ⟨[], by simp, hd.symm⟩

/-- A stretch that goes over the beginning of a line is cut there, behind a line end. -/
lemma exists_cut {before line behind : List Char} (h : before ++ (taken ++ rest) = line ++ behind)
    (hstart : before.length < line.length) (hstop : line.length < (before ++ taken).length)
    (hline : line.getLast?.all (· == '\n') = true) :
    ∃ a b, taken = a ++ b ∧ behind = b ++ rest ∧ a.getLast?.any isBlank = true := by
  obtain ⟨a, rfl, hmatch⟩ := exists_of_append_eq_of_le h (Nat.le_of_lt hstart)
  simp only [List.length_append] at hstart hstop
  obtain ⟨b, hcut, hbehind⟩ := exists_of_append_eq_of_le hmatch.symm (by omega)
  have hne : a ≠ [] := by
    rintro rfl
    simp at hstart
  refine ⟨a, b, hcut, hbehind, ?_⟩
  rw [List.getLast?_append_of_ne_nil _ hne, List.getLast?_eq_some_getLast hne] at hline
  have hlast : (a.getLast hne == '\n') = true := hline
  rw [List.getLast?_eq_some_getLast hne, beq_iff_eq.mp hlast]
  decide

/-- An export that goes over the beginning of a line with another export has the word `export` for
its name. -/
theorem group_eq_of_crossed {line indent opening : List Char}
    (hhead : IsHead text line indent ("export".toList ++ (opening ++ more)))
    (hopening : IsGap opening more) (hm : m ∈ exportDeclaration.inLines text)
    (hstart : m.start.index < line.length) (hstop : line.length < m.stop.index) :
    m.group 3 = "export" := by
  have hplain : ∀ word ∈ laterWords, word.toList.all (!isBlank ·) = true := by decide
  have hdiffers : ∀ word ∈ laterWords, word.toList.isPrefixOf "export".toList = false ∧
      "export".toList.isPrefixOf word.toList = false := by decide
  obtain ⟨line', indent', _, rest, hhead', hspans, hstart', hstop'⟩ := exists_of_mem_inLines hm
  rw [hstart'] at hstart
  rw [hstop'] at hstop
  obtain ⟨_, ident, inFront, _, rfl, hgroups, hfront, inner, rfl, hidentifier⟩ := hspans
  obtain ⟨hname, rfl⟩ := isName_of_spans hidentifier
  obtain ⟨tail, rfl, hphrase⟩ := opens_exportFront _ _ _ hfront
  -- the match is cut at the beginning of the line; its own word `export` stands before the cut
  have htext : (line' ++ indent') ++ ("export".toList ++ tail ++ ident ++ rest) =
      line ++ (indent ++ ("export".toList ++ (opening ++ more))) := by
    rw [← hhead'.text_eq, hhead.text_eq, List.append_assoc]
  obtain ⟨a, b, hcut, hbehind, hblank⟩ := exists_cut htext hstart hstop hhead.line
  rw [List.append_assoc] at hcut
  obtain ⟨a', -, hlast, htail⟩ := exists_of_append_eq (by decide) hcut hblank
  -- behind it there are blanks and words, and then the name
  obtain ⟨front, hresumed, rfl⟩ := hphrase.cut hplain hname.noBlank htail hlast
  rw [List.append_assoc] at hbehind
  have hsame : ident ++ rest = "export".toList ++ (opening ++ more) :=
    hresumed.eq_of_resumed hplain hdiffers hbehind.symm hhead.indent rfl
      (hname.head?_any Identifier.isBlank_of_isNameStart)
  have hexport : IsName "export".toList (opening ++ more) :=
    ⟨by decide, by decide, hopening.head?_any more⟩
  have hident : ident = "export".toList := by
    rw [← hname.takeWhile, hsame, hexport.takeWhile]
  rw [Match.group, Match.group?, hgroups, hident]
  exact String.ofList_toList

end DirectoryNotes.Source
