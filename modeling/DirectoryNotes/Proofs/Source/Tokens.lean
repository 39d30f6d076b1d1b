import DirectoryNotes.Proofs.Source.DefaultExports
import DirectoryNotes.Proofs.Source.Heads

/-!
# Names as they stand in the text

Every name that is recorded of a source file stands in its text behind a word that declares it, and
nothing of it is left out at its end. In front, a blank or a star keeps it apart from the word, but a
declared function may follow its word at once: then the name begins in the middle of a longer word.
Nothing keeps a reserved word from being recorded where a name is expected.

* `Apart`: a pattern ends with a character that is in no name;
* `Declares`: a front ends with one of some words and the mark behind it;
* `Place`: where a name stands, and what is before it;
* `recordedNames_isToken`: the names of a whole file.
-/

namespace DirectoryNotes.Source

open Pattern
open Text (isBlank)

variable {p q front : Pattern} {taken rest between more text content : List Char} {added : Groups}
  {words : List String} {mark : List Char → Prop} {n : Nat} {m : Match}

/-! ## Ends of stretches -/

/-- The stretch does not end within a name. -/
def EndsApart (taken : List Char) : Prop := taken.getLast?.any isNameChar = false

lemma endsApart_append {first second : List Char} (hfirst : EndsApart first)
    (hsecond : EndsApart second) : EndsApart (first ++ second) := by
  unfold EndsApart at *
  rw [List.getLast?_append]
  cases hlast : second.getLast? with
  | none => exact hfirst
  | some c => rwa [hlast] at hsecond

lemma endsApart_append_of_ne_nil {first second : List Char} (hne : second ≠ [])
    (hsecond : EndsApart second) : EndsApart (first ++ second) := by
  unfold EndsApart at *
  rwa [List.getLast?_append_of_ne_nil _ hne]

lemma endsApart_of_blank (h : taken.all isBlank = true) : EndsApart taken := by
  unfold EndsApart
  cases hlast : taken.getLast? with
  | none => rfl
  | some c =>
    have hc : isBlank c = true := List.all_eq_true.mp h c (List.mem_of_getLast? hlast)
    exact isNameChar_of_isBlank hc

lemma IsHead.endsApart {line indent : List Char} (h : IsHead text line indent rest) :
    EndsApart (line ++ indent) := by
  refine endsApart_append ?_ (endsApart_of_blank h.indent)
  have hline := h.line
  unfold EndsApart
  cases hlast : line.getLast? with
  | none => rfl
  | some c =>
    rw [hlast] at hline
    rw [beq_iff_eq.mp hline]
    decide

/-- Whatever the pattern spans does not end within a name. -/
def Apart (p : Pattern) : Prop :=
  ∀ (taken rest : List Char) (added : Groups), p.Spans taken rest added → EndsApart taken

lemma apart_append_gap (p : Pattern) : Apart (p ++ gap) := by
  rintro _ rest _ ⟨first, second, _, _, rfl, rfl, -, hsecond⟩
  obtain ⟨hgap, -⟩ := isGap_of_spans hsecond
  exact endsApart_append_of_ne_nil hgap.nonempty (endsApart_of_blank hgap.blank)

lemma Apart.append (hp : Apart p) (hq : Apart q) : Apart (p ++ q) := by
  rintro _ rest _ ⟨first, second, _, _, rfl, rfl, hfirst, hsecond⟩
  exact endsApart_append (hp _ _ _ hfirst) (hq _ _ _ hsecond)

lemma Apart.group (hp : Apart p) (n : Nat) : Apart (.group n p) := by
  rintro taken rest _ ⟨inner, rfl, h⟩
  exact hp _ _ _ h

lemma Apart.maybe (hp : Apart p) : Apart (maybe p) := by
  rintro taken rest added (h | ⟨rfl, rfl⟩)
  · exact hp _ _ _ h
  · rfl

/-! ## Marks -/

/-- What may stand between a word and the name that it declares: blanks and a star. -/
def IsMark (between : List Char) : Prop :=
  ∃ first star second, between = first ++ (star ++ second) ∧ first.all isBlank = true ∧
    (star = [] ∨ star = ['*']) ∧ second.all isBlank = true

lemma IsMark.endsApart (h : IsMark between) : EndsApart between := by
  obtain ⟨first, star, second, rfl, hfirst, hstar, hsecond⟩ := h
  refine endsApart_append (endsApart_of_blank hfirst)
    (endsApart_append ?_ (endsApart_of_blank hsecond))
  rcases hstar with rfl | rfl <;> rfl

lemma IsMark.append (h : IsMark between) (hrest : rest.all isBlank = true) :
    IsMark (between ++ rest) := by
  obtain ⟨first, star, second, rfl, hfirst, hstar, hsecond⟩ := h
  refine ⟨first, star, second ++ rest, by simp only [List.append_assoc], hfirst, hstar, ?_⟩
  rw [List.all_append, hsecond, hrest, Bool.and_self]

/-! ## Words that declare -/

/-- Whatever the front spans ends with one of the words and a mark, and no name goes on into the
word. -/
def Declares (front : Pattern) (words : List String) (mark : List Char → Prop) : Prop :=
  ∀ (taken rest : List Char) (added : Groups), front.Spans taken rest added →
    ∃ before, ∃ word ∈ words, ∃ between, taken = before ++ (word.toList ++ between) ∧
      mark between ∧ EndsApart before

/-- A mark that keeps the name apart from the word. -/
def Separates (between : List Char) : Prop := between ≠ [] ∧ IsMark between

lemma Declares.append_gap (h : Declares front words IsMark) :
    Declares (front ++ gap) words Separates := by
  rintro _ rest _ ⟨first, second, _, _, rfl, rfl, hfirst, hsecond⟩
  obtain ⟨before, word, hword, between, rfl, hmark, hbefore⟩ := h _ _ _ hfirst
  obtain ⟨hgap, -⟩ := isGap_of_spans hsecond
  refine ⟨before, word, hword, between ++ second, by simp only [List.append_assoc], ⟨?_, ?_⟩,
    hbefore⟩
  · exact List.append_ne_nil_of_right_ne_nil _ hgap.nonempty
  · exact hmark.append hgap.blank

lemma declares_oneOf (hp : Apart p) (words : List String) :
    Declares (p ++ oneOf words) words IsMark := by
  rintro _ rest _ ⟨before, second, _, _, rfl, rfl, hfirst, hsecond⟩
  obtain ⟨word, hword, rfl, -⟩ := exists_of_spans_oneOf hsecond
  exact ⟨before, word, hword, [], by rw [List.append_nil], ⟨[], [], [], rfl, rfl, .inl rfl, rfl⟩,
    hp _ _ _ hfirst⟩

/-- The pattern spans marks only. -/
def Marks (q : Pattern) : Prop :=
  ∀ (taken rest : List Char) (added : Groups), q.Spans taken rest added → IsMark taken

lemma marks_star : Marks (maybe (blanks ++ char '*')) := by
  rintro _ rest _ (⟨between, _, _, _, rfl, -, ⟨hblank, -⟩, ⟨c, rfl, hc⟩, -⟩ | ⟨rfl, -⟩)
  · exact ⟨between, [c], [], rfl, hblank, .inr (by rw [beq_iff_eq.mp hc]), rfl⟩
  · exact ⟨[], [], [], rfl, rfl, .inl rfl, rfl⟩

/-- Blanks with at most one star among them fill no group. -/
lemma exists_of_spans_mark (h : (blanks ++ (maybe (char '*') ++ blanks)).Spans taken rest added) :
    added = [] ∧ (taken.all isBlank = true ∨ ∃ first second, taken = first ++ (['*'] ++ second) ∧
      first.all isBlank = true ∧ second.all isBlank = true) := by
  obtain ⟨first, _, _, _, rfl, rfl, ⟨hfirst, -, rfl⟩, star, second, _, _, rfl, rfl, hstar, hsecond,
    -, rfl⟩ := h
  rcases hstar with ⟨⟨c, rfl, hc⟩, rfl⟩ | ⟨rfl, rfl⟩
  · exact ⟨rfl, .inr ⟨first, second, by rw [beq_iff_eq.mp hc], hfirst, hsecond⟩⟩
  · exact ⟨rfl, .inl (by rw [List.all_append, List.all_append, hfirst, hsecond]; rfl)⟩

lemma isMark_of_blank (h : between.all isBlank = true) : IsMark between :=
  ⟨between, [], [], (List.append_nil _).symm, h, .inl rfl, rfl⟩

lemma marks_blanks : Marks (blanks ++ (maybe (char '*') ++ blanks)) := by
  intro _ _ _ h
  obtain ⟨-, hblank | ⟨first, second, rfl, hfirst, hsecond⟩⟩ := exists_of_spans_mark h
  · exact isMark_of_blank hblank
  · exact ⟨first, ['*'], second, rfl, hfirst, .inr rfl, hsecond⟩

lemma declares_literal (hp : Apart p) (hq : Marks q) (word : String) :
    Declares (p ++ literal word ++ q) [word] IsMark := by
  rintro _ rest _ ⟨_, between, _, _, rfl, rfl, ⟨before, _, _, _, rfl, rfl, hbefore, hword⟩, hmark⟩
  obtain ⟨rfl, -⟩ := eq_of_spans_literal hword
  exact ⟨before, word, List.mem_singleton_self _, between, List.append_assoc .., hq _ _ _ hmark,
    hp _ _ _ hbefore⟩

lemma Declares.choice {words' : List String} (hfirst : Declares (p ++ q) words mark)
    (hsecond : Declares (p ++ front) words' mark) :
    Declares (p ++ .choice q front) (words ++ words') mark := by
  rintro _ rest _ ⟨first, second, inFirst, inSecond, rfl, rfl, hp, hq | hq⟩
  · obtain ⟨before, word, hword, h⟩ := hfirst _ _ _ ⟨first, second, _, _, rfl, rfl, hp, hq⟩
    exact ⟨before, word, List.mem_append_left _ hword, h⟩
  · obtain ⟨before, word, hword, h⟩ := hsecond _ _ _ ⟨first, second, _, _, rfl, rfl, hp, hq⟩
    exact ⟨before, word, List.mem_append_right _ hword, h⟩

lemma Declares.group (h : Declares (p ++ q) words mark) (n : Nat) :
    Declares (p ++ .group n q) words mark := by
  rintro _ rest _ ⟨first, second, inFirst, _, rfl, rfl, hp, inner, rfl, hq⟩
  exact h _ _ _ ⟨first, second, _, _, rfl, rfl, hp, hq⟩

lemma Declares.assoc (h : Declares (p ++ q ++ front) words mark) :
    Declares (p ++ (q ++ front)) words mark :=
  fun _ _ _ hspans => h _ _ _ (spans_assoc.mpr hspans)

lemma apart_maybeWord (word : String) : Apart (maybeWord word) := (apart_append_gap _).maybe

lemma apart_maybeGroup (word : String) (n : Nat) :
    Apart (maybe (.group n (literal word ++ gap))) := ((apart_append_gap _).group n).maybe

lemma declares_exportFront : Declares exportFront
    ["function", "class", "class", "interface", "const", "let", "var", "type", "enum"]
      Separates := by
  have hfront := (((apart_append_gap (literal "export")).append (apart_maybeGroup "default" 1)).append
    (apart_maybeWord "declare")).append (apart_maybeWord "async")
  have hfunction := (declares_literal hfront marks_star "function").assoc
  have habstract := (declares_oneOf (hfront.append (apart_append_gap (literal "abstract")))
    ["class"]).assoc
  have hother := declares_oneOf hfront ["class", "interface", "const", "let", "var", "type", "enum"]
  exact ((hfunction.choice (habstract.choice hother)).group 2).append_gap

lemma declares_defaultFront : Declares defaultFront ["default"] Separates :=
  (declares_oneOf (apart_append_gap _) ["default"]).append_gap

lemma declares_functionFront : Declares functionFront ["function"] IsMark := by
  have hfront := ((apart_maybeGroup "export" 1).append (apart_maybeWord "default")).append
    (apart_maybeGroup "async" 2)
  exact fun _ _ _ hspans => declares_literal hfront marks_blanks "function" _ _ _
    (spans_assoc.mp (spans_assoc.mp hspans))

lemma declares_arrowFront : Declares arrowFront ["const", "let", "var"] Separates :=
  (declares_oneOf (apart_maybeGroup "export" 1) _).append_gap

lemma declares_classFront : Declares classFront ["class"] Separates :=
  (declares_oneOf (((apart_maybeGroup "export" 1).append (apart_maybeWord "default")).append
    (apart_maybeWord "abstract")) ["class"]).append_gap

lemma declares_interfaceFront : Declares interfaceFront ["interface"] Separates :=
  (declares_oneOf ((apart_maybeGroup "export" 1).append (apart_maybeWord "declare"))
    ["interface"]).append_gap

/-! ## Names in a text -/

/-- Where a name stands in a text: behind a word and a mark. No name goes on into the word, and the
name goes on as far as it can. -/
structure Place (text : List Char) (ident : String) where
  before : List Char
  word : String
  between : List Char
  after : List Char
  text_eq : text = before ++ (word.toList ++ (between ++ (ident.toList ++ after)))
  apart : EndsApart before
  isMark : IsMark between
  isName : IsName ident.toList after

/-- What stands before the name. -/
def Place.upTo {ident : String} (place : Place text ident) : List Char :=
  place.before ++ (place.word.toList ++ place.between)

/-- The name is a complete identifier: no character of a name stands before it either. -/
def Place.IsToken {ident : String} (place : Place text ident) : Prop := EndsApart place.upTo

lemma Place.isToken {ident : String} (place : Place text ident) (hne : place.between ≠ []) :
    place.IsToken :=
  endsApart_append_of_ne_nil (List.append_ne_nil_of_right_ne_nil _ hne)
    (endsApart_append_of_ne_nil hne place.isMark.endsApart)

lemma Place.upTo_append {ident : String} (place : Place text ident) :
    text = place.upTo ++ (ident.toList ++ place.after) := by
  rw [Place.upTo, List.append_assoc, List.append_assoc]
  exact place.text_eq

lemma exists_place (hp : Heads p front n) (hn : n ∉ front.numbers)
    (hfront : Declares front words mark) (hmark : ∀ between, mark between → IsMark between)
    (hm : m ∈ p.inLines text) :
    ∃ place : Place text (m.group n), place.word ∈ words ∧ mark place.between := by
  obtain ⟨line, indent, taken, ident, more, _, hhead, hspans, hname, hgroup, -⟩ := exists_head hp hn hm
  obtain ⟨before, word, hword, between, rfl, hbetween, hbefore⟩ := hfront _ _ _ hspans
  have hident : (m.group n).toList = ident := by rw [hgroup, String.toList_ofList]
  refine ⟨⟨line ++ indent ++ before, word, between, more, ?_,
    endsApart_append (IsHead.endsApart hhead) hbefore, hmark between hbetween, ?_⟩, hword, hbetween⟩
  · rw [hhead.text_eq, hident]
    simp only [List.append_assoc]
  · rwa [hident]

/-! ## Recorded names -/

/-- The words behind which a name is recorded. -/
def declaringWords : List String :=
  ["function", "class", "interface", "const", "let", "var", "type", "enum", "default"]

/-- Words that are no names. -/
def reservedWords : List String := ["class", "const", "enum", "export", "extends", "function"]

/-- The names of functions, classes, interfaces and exports. -/
def recordedNames (facts : SourceFacts) : List String :=
  facts.functions.map (·.name) ++ facts.classes.map (·.name) ++ facts.interfaces.map (·.name)
    ++ facts.exports.map (·.name)

/-- A declaration has the name as a complete identifier. -/
def IsDeclared (text : List Char) (ident : String) : Prop :=
  ∃ place : Place text ident, place.word ∈ declaringWords ∧ place.IsToken

lemma isDeclared_of_mem_inLines (hp : Heads p front n) (hn : n ∉ front.numbers)
    (hfront : Declares front words Separates) (hwords : words ⊆ declaringWords)
    (hm : m ∈ p.inLines text) : IsDeclared text (m.group n) := by
  obtain ⟨place, hword, hbetween⟩ := exists_place hp hn hfront (fun _ => And.right) hm
  exact ⟨place, hwords hword, place.isToken hbetween.1⟩

lemma isDeclared_export {facts : SourceFacts} {e : Export} (he : e ∈ exports content facts) :
    IsDeclared content e.name := by
  rcases name_of_mem_exports he with ⟨m, hm, hname⟩ | hname
  · rw [← hname]
    exact isDeclared_of_mem_inLines exportDeclaration_heads (by decide) declares_exportFront
      (by decide) hm
  · obtain ⟨m, hm, hname⟩ := List.mem_map.mp hname
    rw [← hname]
    exact isDeclared_of_mem_inLines exportDefaultName_heads (by decide) declares_defaultFront
      (by decide) hm

lemma isDeclared_class {c : ClassFact} (hc : c ∈ classes content) : IsDeclared content c.name := by
  obtain ⟨m, hm, rfl⟩ := List.mem_map.mp hc
  exact isDeclared_of_mem_inLines classDeclaration_heads (by decide) declares_classFront
    (by decide) hm

lemma isDeclared_interface {i : InterfaceFact} (hi : i ∈ interfaces content) :
    IsDeclared content i.name := by
  obtain ⟨m, hm, rfl⟩ := List.mem_map.mp hi
  exact isDeclared_of_mem_inLines interfaceDeclaration_heads (by decide) declares_interfaceFront
    (by decide) hm

/-- The name of a function is complete, or it stands right behind its word. -/
lemma isDeclared_function {f : FunctionFact} (hf : f ∈ functions content) :
    IsDeclared content f.name ∨
      ∃ place : Place content f.name, place.word = "function" ∧ place.between = [] := by
  rcases List.mem_append.mp hf with hf | hf
  · obtain ⟨m, hm, rfl⟩ := List.mem_map.mp hf
    obtain ⟨place, hword, -⟩ :=
      exists_place functionDeclaration_heads (by decide) declares_functionFront (fun _ => id) hm
    have hfunction := List.mem_singleton.mp hword
    -- only what is between the word and the name can keep them apart
    by_cases hne : place.between = []
    · exact .inr ⟨place, hfunction, hne⟩
    · exact .inl ⟨place, hfunction ▸ by decide, place.isToken hne⟩
  · obtain ⟨m, hm, rfl⟩ := List.mem_map.mp hf
    exact .inl (isDeclared_of_mem_inLines arrowFunction_heads (by decide) declares_arrowFront
      (by decide) hm)

/-- Only the name of a function may be recorded without being complete. -/
lemma isDeclared_recorded {p : Path} {content ident : String} {facts : SourceFacts}
    (h : analyze? p content = some facts) (hident : ident ∈ recordedNames facts) :
    IsDeclared content.toList ident ∨ ident ∈ facts.functions.map (·.name) ∧
      ∃ place : Place content.toList ident, place.word = "function" ∧ place.between = [] := by
  obtain ⟨-, heq⟩ := Option.ite_none_right_eq_some.mp h
  obtain rfl := Option.some.inj heq
  simp only [recordedNames, List.mem_append, or_assoc] at hident
  rcases hident with hident | hident | hident | hident
  case inl =>
    obtain ⟨f, hf, rfl⟩ := List.mem_map.mp hident
    exact (isDeclared_function hf).imp_right fun hplace => ⟨hident, hplace⟩
  case inr.inl =>
    obtain ⟨c, hc, rfl⟩ := List.mem_map.mp hident
    exact .inl (isDeclared_class hc)
  case inr.inr.inl =>
    obtain ⟨i, hi, rfl⟩ := List.mem_map.mp hident
    exact .inl (isDeclared_interface hi)
  case inr.inr.inr =>
    obtain ⟨e, he, rfl⟩ := List.mem_map.mp hident
    exact .inl (isDeclared_export he)

/-- Every name that is recorded of a file stands behind a word that declares it. There it is a
complete identifier, but for functions that begin right behind their word. Reserved words are no
exception: one is recorded only of a text that has it in such a place. -/
theorem recordedNames_isToken {p : Path} (hp : isReadable p = true) (content : String) :
    ∃ facts, analyze? p content = some facts ∧
      (∀ ident ∈ recordedNames facts, IsDeclared content.toList ident ∨
        ident ∈ facts.functions.map (·.name) ∧ ∃ place : Place content.toList ident,
          place.word = "function" ∧ place.between = []) ∧
      ∀ ident ∈ reservedWords,
        (∀ place : Place content.toList ident, place.word ∉ declaringWords) →
          ident ∉ recordedNames facts := by
  have hfacts : analyze? p content = some _ := if_pos hp
  refine ⟨_, hfacts, fun ident => isDeclared_recorded hfacts, fun ident _ hnowhere hident => ?_⟩
  rcases isDeclared_recorded hfacts hident with ⟨place, hword, -⟩ | ⟨-, place, hword, -⟩
  · exact hnowhere place hword
  · exact hnowhere place (hword ▸ by decide)

/-- A class without a name that extends another one, and a generator. -/
def namelessClass : String :=
  "export default class extends Base \x7b\x7d\nfunction *steps() \x7b\x7d\n"

theorem recordedNames_isToken_namelessClass : isReadable ⟨"a.ts"⟩ = true ∧
    ∃ facts, analyze? ⟨"a.ts"⟩ namelessClass = some facts ∧
      (∀ ident ∈ ["extends", "steps"], ident ∈ recordedNames facts ∧
        (IsDeclared namelessClass.toList ident ∨ ident ∈ facts.functions.map (·.name) ∧
          ∃ place : Place namelessClass.toList ident,
            place.word = "function" ∧ place.between = [])) ∧
      "enum" ∈ reservedWords ∧ "enum" ∉ recordedNames facts := by
  have hp : isReadable ⟨"a.ts"⟩ = true := by decide
  obtain ⟨facts, hfacts, hnames, hreserved⟩ := recordedNames_isToken hp namelessClass
  have hrecorded : ∀ ident ∈ ["extends", "steps"], ident ∈ recordedNames facts := by
    rw [← Option.some.inj hfacts]
    show ∀ ident ∈ ["extends", "steps"], ident ∈ recordedNames (declarations namelessClass.toList)
    decide +kernel
  have hnowhere : ¬ "enum".toList <:+: namelessClass.toList := by decide +kernel
  have henum : "enum" ∈ reservedWords := by decide
  exact ⟨hp, facts, hfacts, fun ident hident => ⟨hrecorded ident hident,
    hnames ident (hrecorded ident hident)⟩, henum, hreserved _ henum fun place _ =>
      hnowhere ⟨place.upTo, place.after, by rw [List.append_assoc, ← place.upTo_append]⟩⟩

/-! ## Names that are none -/

/-- A search for the places where no character of a name stands before an identifier. -/
lemma exists_place_of_append {ident before after : List Char} (hbefore : EndsApart before) :
    ∃ i < (before ++ (ident ++ after)).length + 1,
      ident.isPrefixOf ((before ++ (ident ++ after)).drop i) = true ∧
        ((before ++ (ident ++ after)).take i).getLast?.any isNameChar = false := by
  refine ⟨before.length, ?_, ?_, ?_⟩
  · rw [List.length_append]
    omega
  · rw [List.drop_left, List.isPrefixOf_iff_prefix]
    exact List.prefix_append ..
  · rwa [List.take_left]

/-- A call of a function whose name begins with the word is taken for a declaration. -/
def calledFunction : String := "functionCall(x);\n"

/-- The word `enum` is taken for the name of a constant. -/
def constantEnum : String := "export const enum Color \x7b Red \x7d\n"

/-- The end of a longer word may be recorded as a name, and so may a reserved word. -/
theorem recordedNames_not_isToken :
    (∃ facts, analyze? ⟨"call.ts"⟩ calledFunction = some facts ∧ "Call" ∈ recordedNames facts ∧
      ∀ before after, calledFunction.toList = before ++ ("Call".toList ++ after) →
        ¬ EndsApart before) ∧
    ∃ facts, analyze? ⟨"color.ts"⟩ constantEnum = some facts ∧ "enum" ∈ recordedNames facts ∧
      "enum" ∈ reservedWords := by
  refine ⟨⟨_, if_pos (by decide), ?_, fun before after htext hbefore => ?_⟩,
    ⟨_, if_pos (by decide), ?_, by decide⟩⟩
  · show "Call" ∈ recordedNames (declarations calledFunction.toList)
    decide +kernel
  · have hnone : ¬ ∃ i < calledFunction.toList.length + 1,
        "Call".toList.isPrefixOf (calledFunction.toList.drop i) = true ∧
          (calledFunction.toList.take i).getLast?.any isNameChar = false := by
      decide +kernel
    exact hnone (htext ▸ exists_place_of_append hbefore)
  · show "enum" ∈ recordedNames (declarations constantEnum.toList)
    decide +kernel

end DirectoryNotes.Source
