import DirectoryNotes.Proofs.Source.Tokens

/-!
# Heads of exported declarations

What is declared as exported is read by one pattern, and the exports by another one. Up to its name,
an exported class, interface or constant is also what the other pattern takes, whatever blanks are
between its words. An exported function is so only if a blank stands before its name.

* `takes_exportDeclaration`, `isExportHead`: the words of an export, one after the other;
* `isExportHead_classFront`, `isExportHead_interfaceFront`, `isExportHead_arrowFront`,
  `isExportHead_functionFront`: the fronts of the declarations.
-/

namespace DirectoryNotes.Source

open Pattern
open Text (isBlank)

variable {p q front : Pattern} {taken rest between ident more text content : List Char}
  {added : Groups} {word : String} {n : Nat} {m : Match}

/-! ## Parts before a known text -/

lemma IsWord.takesOnly (h : IsWord word taken rest) : (literal word ++ gap).TakesOnly taken rest := by
  obtain ⟨between, rfl, hgap⟩ := h
  exact (takesOnly_literal word).append hgap.takesOnly

lemma IsLead.takes (h : IsLead word taken rest) (hfails : (literal word ++ gap).Fails rest) :
    (maybeWord word).Takes taken rest [] := by
  rcases h with rfl | h
  · exact hfails.maybe
  · exact h.takesOnly.takes.maybe

lemma IsLead.exists_takes (h : IsLead word taken rest) (hfails : (literal word ++ gap).Fails rest)
    (n : Nat) : ∃ added, (maybe (.group n (literal word ++ gap))).Takes taken rest added := by
  rcases h with rfl | h
  · exact ⟨_, (hfails.group n).maybe⟩
  · exact ⟨_, (h.takesOnly.takes.group n).maybe⟩

/-- A pattern fails before a word that may be missing, if it fails at the word and behind it. -/
lemma IsLead.fails (h : IsLead word taken rest)
    (hword : p.mayMatch word.toList (fun _ => true) = false) (hrest : p.Fails rest) :
    p.Fails (taken ++ rest) := by
  rcases h with rfl | ⟨between, rfl, -⟩
  · exact hrest
  · rw [List.append_assoc]
    exact fails_of_mayMatch hword _

/-- One of several words is taken if the others fail there. -/
lemma takes_oneOf {words : List String} (hword : word ∈ words)
    (hother : ∀ other ∈ words, other ≠ word →
      (literal other).mayMatch word.toList (fun _ => true) = false) :
    (oneOf words).Takes word.toList rest [] := by
  induction words with
  | nil => cases hword
  | cons first words ih =>
    obtain ⟨hfirst, hwords⟩ := List.forall_mem_cons.mp hother
    by_cases hsame : first = word
    · subst hsame
      cases words with
      | nil => exact (takesOnly_literal first).takes
      | cons second words => exact (takesOnly_literal first).takes.left _
    · have hmem : word ∈ words := (List.mem_cons.mp hword).resolve_left (Ne.symm hsame)
      cases words with
      | nil => cases hmem
      | cons second words =>
        exact .right (fails_of_mayMatch (hfirst hsame) rest) (ih hmem hwords)

/-! ## The head of an export -/

/-- The words of an exported declaration are taken one after the other. -/
lemma takes_exportDeclaration {opening lead declared async keyword : List Char} {inLead : Groups}
    (hopening : IsGap opening
      (lead ++ (declared ++ (async ++ (keyword ++ (between ++ (ident ++ rest)))))))
    (hlead : (maybe (.group 1 (literal "default" ++ gap))).Takes lead
      (declared ++ (async ++ (keyword ++ (between ++ (ident ++ rest))))) inLead)
    (hdeclared : IsLead "declare" declared (async ++ (keyword ++ (between ++ (ident ++ rest)))))
    (hasync : IsLead "async" async (keyword ++ (between ++ (ident ++ rest))))
    (hkeyword : declaringWord.Takes keyword (between ++ (ident ++ rest)) [])
    (hother : ∀ other ∈ ["declare", "async"],
      (literal other ++ gap).Fails (keyword ++ (between ++ (ident ++ rest))))
    (hbetween : IsGap between (ident ++ rest)) (hname : IsName ident rest) :
    exportDeclaration.Takes ("export".toList ++ opening ++ lead ++ declared ++ async ++ keyword
      ++ between ++ ident) rest ((3, ident) :: (2, keyword) :: inLead) := by
  have hdeclare : (literal "declare" ++ gap).Fails
      (async ++ (keyword ++ (between ++ (ident ++ rest)))) :=
    hasync.fails (by decide) (hother _ (by decide))
  have hopen := ((takesOnly_literal "export").takes.pass hopening.takesOnly).append hlead
  rw [List.append_nil] at hopen
  exact ((((hopen.append (hdeclared.takes hdeclare)).append
    (hasync.takes (hother _ (by decide)))).append (hkeyword.group 2)).pass
      hbetween.takesOnly).append (hname.takesOnly.takes.group 3)

/-- The text up to the name and the name are an exported declaration. -/
structure IsExportHead (before ident rest : List Char) : Prop where
  takes : ∃ added, exportDeclaration.Takes (before ++ ident) rest ((3, ident) :: added)
  opens : ∃ opening words, before = "export".toList ++ (opening ++ words) ∧
    IsGap opening (words ++ (ident ++ rest))

lemma isExportHead {opening lead declared async keyword : List Char}
    (hopening : IsGap opening
      (lead ++ (declared ++ (async ++ (keyword ++ (between ++ (ident ++ rest)))))))
    (hlead : IsLead "default" lead
      (declared ++ (async ++ (keyword ++ (between ++ (ident ++ rest))))))
    (hdeclared : IsLead "declare" declared (async ++ (keyword ++ (between ++ (ident ++ rest)))))
    (hasync : IsLead "async" async (keyword ++ (between ++ (ident ++ rest))))
    (hkeyword : declaringWord.Takes keyword (between ++ (ident ++ rest)) [])
    (hother : ∀ other ∈ ["default", "declare", "async"],
      (literal other ++ gap).Fails (keyword ++ (between ++ (ident ++ rest))))
    (hbetween : IsGap between (ident ++ rest)) (hname : IsName ident rest) :
    IsExportHead ("export".toList ++ opening ++ lead ++ declared ++ async ++ keyword ++ between)
      ident rest := by
  obtain ⟨hdefault, hlater⟩ := List.forall_mem_cons.mp hother
  -- a word that is missing must not be found in what follows it
  obtain ⟨inLead, htakes⟩ := hlead.exists_takes
    (hdeclared.fails (by decide) (hasync.fails (by decide) hdefault)) 1
  constructor
  case takes =>
    exact ⟨_, takes_exportDeclaration hopening htakes hdeclared hasync hkeyword hlater hbetween
      hname⟩
  case opens =>
    refine ⟨opening, lead ++ (declared ++ (async ++ (keyword ++ between))), ?_, ?_⟩
    · simp only [List.append_assoc]
    · simpa only [List.append_assoc] using hopening

/-! ## Words of other declarations -/

lemma takes_otherWord
    (hword : word ∈ ["class", "interface", "const", "let", "var", "type", "enum"]) :
    declaringWord.Takes word.toList rest [] := by
  have hfunction : ∀ word ∈ ["class", "interface", "const", "let", "var", "type", "enum"],
      (literal "function" ++ maybe (blanks ++ char '*')).mayMatch word.toList (fun _ => true) =
        false := by decide
  have habstract : ∀ word ∈ ["class", "interface", "const", "let", "var", "type", "enum"],
      (literal "abstract" ++ gap ++ literal "class").mayMatch word.toList (fun _ => true) =
        false := by decide
  have hother : ∀ word ∈ ["class", "interface", "const", "let", "var", "type", "enum"],
      ∀ other ∈ ["class", "interface", "const", "let", "var", "type", "enum"], other ≠ word →
        (literal other).mayMatch word.toList (fun _ => true) = false := by decide
  exact .right (fails_of_mayMatch (hfunction word hword) rest)
    (.right (fails_of_mayMatch (habstract word hword) rest) (takes_oneOf hword (hother word hword)))

/-- None of the words that may stand before it is taken for a word that declares. -/
lemma fails_beforeWord
    (hword : word ∈ ["function", "abstract", "class", "interface", "const", "let", "var"]) :
    ∀ other ∈ ["default", "declare", "async"], (literal other ++ gap).Fails (word.toList ++ rest) := by
  have hnone : ∀ word ∈ ["function", "abstract", "class", "interface", "const", "let", "var"],
      ∀ other ∈ ["default", "declare", "async"],
        (literal other ++ gap).mayMatch word.toList (fun _ => true) = false := by decide
  exact fun other hother => fails_of_mayMatch (hnone word hword other hother) rest

/-- The word at the front of an exported declaration. -/
lemma isWord_export (h : (maybe (.group 1 (literal "export" ++ gap))).Spans taken rest added)
    (hexport : (added.lookup 1).isSome = true) : IsWord "export" taken rest := by
  rcases isLead_of_spans_group h with ⟨-, rfl⟩ | ⟨hword, -⟩
  · cases hexport
  · exact hword

variable {before : List Char}

lemma isExportHead_classFront (h : classFront.Spans before (ident ++ rest) added)
    (hexport : (added.lookup 1).isSome = true) (hname : IsName ident rest) :
    IsExportHead before ident rest := by
  obtain ⟨_, between, _, _, rfl, rfl, ⟨_, _, _, _, rfl, rfl, ⟨_, modifier, _, _, rfl, rfl,
    ⟨_, lead, _, _, rfl, rfl, hfront, hdefault⟩, habstract⟩, hclass⟩, hgap⟩ := h
  obtain ⟨hbetween, rfl⟩ := isGap_of_spans hgap
  obtain ⟨rfl, rfl⟩ := eq_of_spans_literal hclass
  obtain ⟨hmodifier, rfl⟩ := isLead_of_spans habstract
  obtain ⟨hlead, rfl⟩ := isLead_of_spans hdefault
  obtain ⟨opening, rfl, hopening⟩ := isWord_export hfront hexport
  rcases hmodifier with rfl | ⟨inner, rfl, hinner⟩
  · have hhead : IsExportHead ("export".toList ++ opening ++ lead ++ [] ++ [] ++ "class".toList
        ++ between) ident rest :=
      isExportHead hopening hlead (.inl rfl) (.inl rfl) (takes_otherWord (by decide))
        (fails_beforeWord (by decide)) hbetween hname
    simpa only [List.append_nil] using hhead
  · have hhead : IsExportHead ("export".toList ++ opening ++ lead ++ [] ++ []
        ++ ("abstract".toList ++ inner ++ "class".toList) ++ between) ident rest := by
      have hwords := ((takesOnly_literal "abstract").append hinner.takesOnly).append
        (@takesOnly_literal (between ++ (ident ++ rest)) "class")
      have hfunction := @fails_of_mayMatch (literal "function" ++ maybe (blanks ++ char '*'))
        "abstract".toList (by decide)
      simp only [List.append_assoc] at hopening hlead
      refine isExportHead (by simpa using hopening) (by simpa using hlead) (.inl rfl) (.inl rfl)
        (.right ?_ (hwords.takes.left _)) ?_ hbetween hname
      · rw [List.append_assoc, List.append_assoc]
        exact hfunction _
      · rw [List.append_assoc, List.append_assoc]
        exact fails_beforeWord (by decide)
    simpa only [List.append_nil, List.append_assoc] using hhead

lemma isExportHead_interfaceFront (h : interfaceFront.Spans before (ident ++ rest) added)
    (hexport : (added.lookup 1).isSome = true) (hname : IsName ident rest) :
    IsExportHead before ident rest := by
  obtain ⟨_, between, _, _, rfl, rfl, ⟨_, _, _, _, rfl, rfl, ⟨_, declared, _, _, rfl, rfl, hfront,
    hdeclare⟩, hinterface⟩, hgap⟩ := h
  obtain ⟨hbetween, rfl⟩ := isGap_of_spans hgap
  obtain ⟨rfl, rfl⟩ := eq_of_spans_literal hinterface
  obtain ⟨hdeclared, rfl⟩ := isLead_of_spans hdeclare
  obtain ⟨opening, rfl, hopening⟩ := isWord_export hfront hexport
  have hhead : IsExportHead ("export".toList ++ opening ++ [] ++ declared ++ []
      ++ "interface".toList ++ between) ident rest :=
    isExportHead hopening (.inl rfl) hdeclared (.inl rfl) (takes_otherWord (by decide))
      (fails_beforeWord (by decide)) hbetween hname
  simpa only [List.append_nil] using hhead

lemma isExportHead_arrowFront (h : arrowFront.Spans before (ident ++ rest) added)
    (hexport : (added.lookup 1).isSome = true) (hname : IsName ident rest) :
    IsExportHead before ident rest := by
  obtain ⟨_, between, _, _, rfl, rfl, ⟨_, _, _, _, rfl, rfl, hfront, hbinds⟩, hgap⟩ := h
  obtain ⟨hbetween, rfl⟩ := isGap_of_spans hgap
  obtain ⟨word, hword, rfl, rfl⟩ := exists_of_spans_oneOf hbinds
  obtain ⟨opening, rfl, hopening⟩ := isWord_export hfront hexport
  have hwords : ["const", "let", "var"] ⊆
      ["class", "interface", "const", "let", "var", "type", "enum"] ∧ ["const", "let", "var"] ⊆
        ["function", "abstract", "class", "interface", "const", "let", "var"] := by decide
  have hhead : IsExportHead ("export".toList ++ opening ++ [] ++ [] ++ [] ++ word.toList
      ++ between) ident rest :=
    isExportHead hopening (.inl rfl) (.inl rfl) (.inl rfl) (takes_otherWord (hwords.1 hword))
      (fails_beforeWord (hwords.2 hword)) hbetween hname
  simpa only [List.append_nil] using hhead

/-! ## Functions -/

/-- The name of a function stands right behind its word or its star. -/
def IsAttached (text : List Char) (ident : String) : Prop :=
  ∃ place : Place text ident, place.word = "function" ∧
    place.between.getLast?.any isBlank = false

lemma takes_functionWord_star {first : List Char} (hfirst : first.all isBlank = true) :
    declaringWord.Takes ("function".toList ++ (first ++ ['*'])) rest [] := by
  have hblanks : blanks.TakesOnly first ('*' :: rest) := takesOnly_run hfirst rfl
  exact ((takesOnly_literal "function").takes.append
    (hblanks.append (takesOnly_char '*')).takes.maybe).left _

lemma takes_functionWord_gap (hbetween : IsGap between rest)
    (hstar : rest.head?.any (· == '*') = false) :
    declaringWord.Takes "function".toList (between ++ rest) [] := by
  have hblanks : blanks.TakesOnly between rest := takesOnly_run hbetween.blank hbetween.ends
  exact ((takesOnly_literal "function").takes.leave
    (hblanks.fails_append (fails_one hstar)).maybe).left _

/-- The words that stand before the word of an exported function. -/
def IsExportedLead (words rest : List Char) : Prop :=
  ∃ opening lead async, words = "export".toList ++ opening ++ lead ++ async ∧
    IsGap opening (lead ++ (async ++ rest)) ∧ IsLead "default" lead (async ++ rest) ∧
      IsLead "async" async rest

lemma isExportedLead_of_spans {words : List Char}
    (h : (maybe (.group 1 (literal "export" ++ gap)) ++ maybeWord "default"
      ++ maybe (.group 2 (literal "async" ++ gap))).Spans words rest added)
    (hexport : (added.lookup 1).isSome = true) : IsExportedLead words rest := by
  have hnumbers : ∀ k ∈ (maybe (.group 2 (literal "async" ++ gap))).numbers, k ≠ 1 := by decide
  obtain ⟨_, async, _, inAsync, rfl, rfl, ⟨_, lead, _, _, rfl, rfl, hfront, hdefault⟩, hmodifier⟩ := h
  obtain ⟨hlead, rfl⟩ := isLead_of_spans hdefault
  have hasync : IsLead "async" async rest := (isLead_of_spans_group hmodifier).imp And.left And.left
  rw [lookup_append_of_notMem fun g hg => hnumbers _ (hmodifier.mem_numbers g hg)] at hexport
  obtain ⟨opening, rfl, hopening⟩ := isWord_export hfront hexport
  exact ⟨opening, lead, async, rfl, hopening, hlead, hasync⟩

lemma IsExportedLead.isExportHead {words keyword : List Char}
    (h : IsExportedLead words (keyword ++ (between ++ (ident ++ rest))))
    (hkeyword : declaringWord.Takes keyword (between ++ (ident ++ rest)) [])
    (hother : ∀ other ∈ ["default", "declare", "async"],
      (literal other ++ gap).Fails (keyword ++ (between ++ (ident ++ rest))))
    (hbetween : IsGap between (ident ++ rest)) (hname : IsName ident rest) :
    IsExportHead (words ++ (keyword ++ between)) ident rest := by
  obtain ⟨opening, lead, async, rfl, hopening, hlead, hasync⟩ := h
  have hhead : IsExportHead ("export".toList ++ opening ++ lead ++ [] ++ async ++ keyword
      ++ between) ident rest :=
    Source.isExportHead hopening hlead (.inl rfl) hasync hkeyword hother hbetween hname
  simpa only [List.append_nil, List.append_assoc] using hhead

/-- An exported function is an exported declaration if a blank stands before its name. -/
lemma isExportHead_functionFront (h : functionFront.Spans before (ident ++ rest) added)
    (hexport : (added.lookup 1).isSome = true) (hname : IsName ident rest) :
    IsExportHead before ident rest ∨ ∃ earlier between,
      before = earlier ++ ("function".toList ++ between) ∧ EndsApart earlier ∧ IsMark between ∧
        between.getLast?.any isBlank = false := by
  have hapart := ((apart_maybeGroup "export" 1).append (apart_maybeWord "default")).append
    (apart_maybeGroup "async" 2)
  have hblank := hname.head?_any Identifier.isBlank_of_isNameStart
  have hnoStar : (ident ++ rest).head?.any (· == '*') = false :=
    hname.head?_any fun c hc => beq_false_of_ne fun h => absurd (h ▸ hc) (by decide)
  have hother : ∀ more, ∀ other ∈ ["default", "declare", "async"],
      (literal other ++ gap).Fails ("function".toList ++ more) :=
    fun _ => fails_beforeWord (by decide)
  obtain ⟨_, between, _, _, rfl, rfl, ⟨words, _, _, _, rfl, rfl, hwords, hfunction⟩, hmark⟩ :=
    spans_assoc.mp (spans_assoc.mp h)
  obtain ⟨rfl, rfl⟩ := eq_of_spans_literal hfunction
  obtain ⟨rfl, hkind⟩ := exists_of_spans_mark hmark
  have hlead := isExportedLead_of_spans hwords hexport
  have hearlier := hapart _ _ _ hwords
  rw [List.append_assoc]
  -- with a star or without one, what counts is whether the mark ends with a blank
  rcases hkind with hbetween | ⟨first, second, rfl, hfirst, hsecond⟩
  · by_cases hnone : between = []
    · subst hnone
      exact .inr ⟨words, [], rfl, hearlier, isMark_of_blank rfl, rfl⟩
    · have hgap : IsGap between (ident ++ rest) := ⟨hnone, hbetween, hblank⟩
      exact .inl (hlead.isExportHead (takes_functionWord_gap hgap hnoStar) (hother _) hgap hname)
  · by_cases hnone : second = []
    · subst hnone
      refine .inr ⟨words, first ++ (['*'] ++ []), rfl, hearlier,
        ⟨first, ['*'], [], rfl, hfirst, .inr rfl, rfl⟩, ?_⟩
      rw [List.append_nil, List.getLast?_concat]
      decide
    · have hstarred : IsExportedLead words (("function".toList ++ (first ++ ['*']))
          ++ (second ++ (ident ++ rest))) := by
        simpa only [List.append_assoc] using hlead
      have hhead := hstarred.isExportHead (takes_functionWord_star hfirst)
        (by rw [List.append_assoc]; exact hother _) ⟨hnone, hsecond, hblank⟩ hname
      exact .inl (by simpa only [List.append_assoc] using hhead)

end DirectoryNotes.Source
