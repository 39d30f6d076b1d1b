import DirectoryNotes.Proofs.Pattern.Rows
import DirectoryNotes.Proofs.Text.Case
import DirectoryNotes.Proofs.Text.Items
import DirectoryNotes.Source.Analyzer

/-!
# Parts of a declaration

The texts that stand in a declaration, and what the parts of the patterns take of them where one
space fills each gap:

* `Identifier`, `ModuleName`, `Item`: names, modules, and what is listed up to a mark;
* `IsGap`, `IsName`: stretches of a text that know what they stand before, so that they cannot be
  longer;
* `takesOnly_gap`, `takesOnly_name`, `takes_fromModule`: the parts that take them;
* `fails_char`, `fails_otherWord`: what an identifier is not taken for.
-/

namespace DirectoryNotes.Source

open Pattern
open Text (isBlank join trim trimBy)

/-! ## Texts -/

/-- ASCII letters, digits, underscores and dollar signs. -/
def isAsciiName (c : Char) : Bool := c.isAlphanum || c == '_' || c == '$'

/-- An identifier of ASCII characters, with no digit at the front. -/
structure Identifier where
  text : String
  begins : text.toList.head?.any isNameStart = true := by decide
  ascii : text.toList.all isAsciiName = true := by decide

/-- The name of a module: not empty, without quotes and in one line. -/
structure ModuleName where
  text : String
  nonempty : text ≠ "" := by decide
  noQuote : text.toList.any isQuote = false := by decide
  newline : '\n' ∉ text.toList := by decide

/-- An item of a list that a mark closes: not empty, without blanks at its ends, in one line, and
with neither a comma nor the mark in it. -/
structure Item (mark : Char) where
  text : String
  nonempty : text ≠ "" := by decide
  trimmed : trim text = text := by decide
  noMark : mark ∉ text.toList := by decide
  noComma : ',' ∉ text.toList := by decide
  newline : '\n' ∉ text.toList := by decide

variable {between ident rest : List Char} {cls : Char → Bool}

/-! ## Stretches of a text -/

/-- Blanks, at least one and as many as there are. -/
structure IsGap (between rest : List Char) : Prop where
  nonempty : between ≠ []
  blank : between.all isBlank = true
  ends : rest.head?.any isBlank = false

/-- An identifier, as long as it goes on. -/
structure IsName (ident rest : List Char) : Prop where
  begins : ident.head?.any isNameStart = true
  chars : ident.all isNameChar = true
  ends : rest.head?.any isNameChar = false

lemma IsGap.takesOnly (h : IsGap between rest) : gap.TakesOnly between rest :=
  takesOnly_atLeastOne h.nonempty h.blank h.ends

lemma IsName.takesOnly (h : IsName ident rest) : name.TakesOnly ident rest := by
  obtain ⟨hbegins, hchars, hends⟩ := h
  cases ident with
  | nil => cases hbegins
  | cons c cs =>
    rw [List.all_cons, Bool.and_eq_true] at hchars
    exact (takesOnly_one hbegins).append (takesOnly_run hchars.2 hends)

/-- A name begins with no character that names do not begin with. -/
lemma head?_any_of_begins (h : ident.head?.any isNameStart = true)
    (hcls : ∀ c, isNameStart c = true → cls c = false) (rest : List Char) :
    (ident ++ rest).head?.any cls = false := by
  cases ident with
  | nil => cases h
  | cons c cs => exact hcls c h

/-! ## Identifiers and items -/

namespace Identifier

lemma lt_of_isAlphanum {c : Char} (hc : c.isAlphanum = true) : c.toNat < 0x80 := by
  have hlast : ∀ last : Char, c.val ≤ last.val → last.toNat < 0x80 → c.toNat < 0x80 :=
    fun last h hlast => Nat.lt_of_le_of_lt (UInt32.le_iff_toNat_le.mp h) hlast
  rcases Bool.or_eq_true_iff.mp hc with hletter | hdigit
  · rcases Bool.or_eq_true_iff.mp hletter with hupper | hlower
    · exact hlast 'Z' (of_decide_eq_true hupper).2 (by decide)
    · exact hlast 'z' (of_decide_eq_true (Bool.and_eq_true_iff.mp hlower).2) (by decide)
  · exact hlast '9' (of_decide_eq_true (Bool.and_eq_true_iff.mp hdigit).2) (by decide)

lemma isNameChar_of_ascii {c : Char} (hc : isAsciiName c = true) :
    isNameChar c = true ∧ isBlank c = false := by
  have hascii : c.toNat < 0x80 := by
    simp only [isAsciiName, Bool.or_eq_true, beq_iff_eq, or_assoc] at hc
    rcases hc with hc | rfl | rfl
    · exact lt_of_isAlphanum hc
    · decide
    · decide
  exact Text.forall_ascii (P := fun c => isAsciiName c = true →
    isNameChar c = true ∧ isBlank c = false) (by decide) hascii hc

lemma isAsciiName_of_isNameStart {c : Char} (hc : isNameStart c = true) : isAsciiName c = true := by
  simp only [isNameStart, Bool.or_eq_true] at hc
  rcases hc with (hc | hc) | hc <;> simp [isAsciiName, Char.isAlphanum, hc]

variable (i : Identifier)

lemma isNameChar_of_mem {c : Char} (hc : c ∈ i.text.toList) :
    isNameChar c = true ∧ isBlank c = false :=
  isNameChar_of_ascii (List.all_eq_true.mp i.ascii c hc)

lemma isName (hrest : rest.head?.any isNameChar = false) : IsName i.text.toList rest :=
  ⟨i.begins, List.all_eq_true.mpr fun _ hc => (i.isNameChar_of_mem hc).1, hrest⟩

lemma isBlank_of_isNameStart (c : Char) (hc : isNameStart c = true) : isBlank c = false :=
  (isNameChar_of_ascii (isAsciiName_of_isNameStart hc)).2

lemma isGap_space (rest : List Char) : IsGap [' '] (i.text.toList ++ rest) :=
  ⟨by decide, by decide, head?_any_of_begins i.begins isBlank_of_isNameStart rest⟩

lemma newline_notMem : '\n' ∉ i.text.toList := by
  intro hmem
  exact absurd (i.isNameChar_of_mem hmem).1 (by decide)

end Identifier

namespace Item

variable {mark : Char} (item : Item mark)

lemma toList_ne_nil : item.text.toList ≠ [] := fun h =>
  item.nonempty (String.toList_eq_nil_iff.mp h)

lemma trimBy_toList : trimBy isBlank item.text.toList = item.text.toList := by
  have htrimmed := congrArg String.toList item.trimmed
  rwa [trim, String.toList_ofList] at htrimmed

/-- What is in none of the items is not in the list. -/
lemma notMem_join (items : List (Item mark)) {c : Char} (hsep : c ∉ ", ".toList)
    (hitems : ∀ item ∈ items, c ∉ item.text.toList) :
    c ∉ (join ", " (items.map (·.text))).toList := by
  intro hmem
  rcases Text.mem_join hmem with hmem | ⟨text, htext, hmem⟩
  · exact hsep hmem
  · obtain ⟨item, hitem, rfl⟩ := List.mem_map.mp htext
    exact hitems item hitem hmem

end Item

/-! ## Parts -/

lemma all_except {mark : Char} {cs : List Char} (h : mark ∉ cs) :
    cs.all (except mark) = true :=
  List.all_eq_true.mpr fun _ hc => bne_iff_ne.mpr fun heq => h (heq ▸ hc)

lemma takesOnly_char (c : Char) : (char c).TakesOnly [c] rest :=
  takesOnly_one (beq_self_eq_true c)

/-- A gap of one space. -/
lemma takesOnly_gap (hrest : rest.head?.any isBlank = false) : gap.TakesOnly [' '] rest :=
  takesOnly_atLeastOne (by decide) (by decide) hrest

lemma takesOnly_blanks (hrest : rest.head?.any isBlank = false) : blanks.TakesOnly [] rest :=
  takesOnly_run rfl hrest

lemma takesOnly_space (hrest : rest.head?.any isBlank = false) : blanks.TakesOnly [' '] rest :=
  takesOnly_run (by decide) hrest

lemma takesOnly_name (i : Identifier) (hrest : rest.head?.any isNameChar = false) :
    name.TakesOnly i.text.toList rest := (i.isName hrest).takesOnly

/-- No mark stands where an identifier does. -/
lemma fails_char (i : Identifier) (mark : Char) (hmark : isNameStart mark = false)
    (rest : List Char) : (char mark).Fails (i.text.toList ++ rest) := by
  refine fails_one (head?_any_of_begins i.begins (fun c hc => beq_false_of_ne ?_) rest)
  rintro rfl
  exact absurd hc (by simp [hmark])

/-- A word, and a gap between it and an identifier. -/
lemma takesOnly_word (word : String) (i : Identifier) (rest : List Char) :
    (literal word ++ gap).TakesOnly (word.toList ++ [' ']) (i.text.toList ++ rest) :=
  (takesOnly_literal word).append (i.isGap_space rest).takesOnly

/-- A word and the gap after it are not there if another word is. -/
lemma fails_otherWord {word : String} {cs : List Char} (hword : word.toList.all isNameChar = true)
    (hcs : ∀ c ∈ cs, isBlank c = false) (hne : cs ≠ word.toList) :
    (literal word ++ gap).Fails (cs ++ ' ' :: rest) := by
  rw [List.all_eq_true] at hword
  unfold literal
  generalize word.toList = chars at hword hne
  induction chars generalizing cs with
  | nil =>
    obtain ⟨d, ds, rfl⟩ := List.exists_cons_of_ne_nil hne
    have hone : (one isBlank).Fails (d :: ds ++ ' ' :: rest) :=
      fails_one (hcs d List.mem_cons_self)
    exact hone.append _
  | cons c chars ih =>
    obtain ⟨hc, hchars⟩ := List.forall_mem_cons.mp hword
    cases cs with
    | nil =>
      have hspace : c ≠ ' ' := by
        rintro rfl
        exact absurd hc (by decide)
      have hone : (one (· == c)).Fails (' ' :: rest) :=
        fails_one (beq_false_of_ne (Ne.symm hspace))
      exact (hone.append _).append _
    | cons d ds =>
      obtain ⟨hd, hds⟩ := List.forall_mem_cons.mp hcs
      by_cases hsame : d = c
      · subst hsame
        have hothers := ih hds hchars fun h => hne (congrArg (d :: ·) h)
        exact (takesOnly_one (beq_self_eq_true d)).fails_append hothers
      · have hone : (one (· == c)).Fails (d :: ds ++ ' ' :: rest) :=
          fails_one (beq_false_of_ne hsame)
        exact (hone.append _).append _

lemma takes_fromModule (source : ModuleName) (n : Nat) :
    (fromModule n).Takes ("from '".toList ++ source.text.toList ++ ['\x27']) rest
      [(n, source.text.toList)] := by
  have hne : source.text.toList ≠ [] := fun h => source.nonempty (String.toList_eq_nil_iff.mp h)
  have hsource : (atLeastOne (!isQuote ·)).TakesOnly source.text.toList ('\x27' :: rest) :=
    takesOnly_atLeastOne hne (by simpa using source.noQuote) rfl
  have hopen : (literal "from" ++ gap ++ one isQuote).TakesOnly "from '".toList
      (source.text.toList ++ '\x27' :: rest) :=
    ((takesOnly_literal "from").append (takesOnly_gap rfl)).append (takesOnly_one rfl)
  exact (hopen.takes.append (hsource.takes.group n)).pass (takesOnly_one rfl)

end DirectoryNotes.Source
