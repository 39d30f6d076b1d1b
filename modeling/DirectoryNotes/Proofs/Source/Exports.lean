import DirectoryNotes.Proofs.Source.ExportHeads
import DirectoryNotes.Proofs.Source.Phrases

/-!
# Exported declarations among the exports

A declaration that is marked as exported is among the exports under its name, with two exceptions: an
earlier export without a name has taken its word `export`, or it is a function whose name stands right
behind its word or star.

* `isListed_of_head`: a head that the pattern of the exports takes;
* `isListed_class`, `isListed_interface`, `isListed_function`: the kinds of declarations.
-/

namespace DirectoryNotes.Source

open Pattern
open Text (isBlank)

variable {p front : Pattern} {content : List Char} {facts : SourceFacts} {n : Nat} {m : Match}

/-- The name is exported. -/
def IsListed (exported : List Export) (name : String) : Prop := ∃ e ∈ exported, e.name = name

instance (exported : List Export) (name : String) : Decidable (IsListed exported name) :=
  inferInstanceAs (Decidable (∃ e ∈ exported, e.name = name))

/-- The line in which the name is declared begins within an earlier export, and that one has taken
the word `export` for its name. -/
def IsOvertaken (content : List Char) (ident : String) : Prop :=
  ∃ m ∈ exportDeclaration.inLines content, m.group 3 = "export" ∧
    ∃ line indent before more, IsHead content line indent
      ("export".toList ++ (before ++ (ident.toList ++ more))) ∧
        m.start.index < line.length ∧ line.length < m.stop.index

/-- What the pattern of the exports takes at the head of a line is among them, or an earlier match
goes over the beginning of the line. -/
lemma isListed_of_head {line indent before ident more : List Char}
    (hhead : IsHead content line indent (before ++ (ident ++ more)))
    (hexport : IsExportHead before ident more) :
    IsListed (exports content facts) (.ofList ident) ∨ IsOvertaken content (.ofList ident) := by
  obtain ⟨⟨added, htakes⟩, opening, words, rfl, hwords⟩ := hexport
  have hmatch := htakes.matchAt? (line ++ indent).length
  rw [List.append_assoc] at hmatch
  rcases mem_inLines_or_crossed hhead hmatch with hm | ⟨other, hother, hstart, hstop⟩
  · exact .inl (mem_exports_of_mem_inLines hm)
  · have hident : (String.ofList ident).toList = ident := String.toList_ofList
    simp only [List.append_assoc] at hhead
    refine .inr ⟨other, hother, group_eq_of_crossed hhead hwords hother hstart hstop, line, indent,
      opening ++ words, more, ?_, hstart, hstop⟩
    rw [hident]
    simpa only [List.append_assoc] using hhead

/-- The matches of a declaration whose front is that of an export wherever it is marked. -/
lemma isListed_of_mem_inLines (hp : Heads p front n) (hn : n ∉ front.numbers)
    (hmark : 1 ∈ front.numbers)
    (hfront : ∀ {before ident more : List Char} {added : Groups},
      front.Spans before (ident ++ more) added → (added.lookup 1).isSome = true →
        IsName ident more → IsExportHead before ident more)
    (hm : m ∈ p.inLines content) (hexport : m.has 1 = true) :
    IsListed (exports content facts) (m.group n) ∨ IsOvertaken content (m.group n) := by
  obtain ⟨line, indent, before, ident, more, added, hhead, hspans, hname, hgroup, hgroups⟩ :=
    exists_head hp hn hm
  rw [Match.has, hgroups 1 hmark] at hexport
  rw [hgroup]
  exact isListed_of_head hhead (hfront hspans hexport hname)

lemma isListed_class {c : ClassFact} (hc : c ∈ classes content) (hexport : c.isExported = true) :
    IsListed (exports content facts) c.name ∨ IsOvertaken content c.name := by
  obtain ⟨m, hm, rfl⟩ := List.mem_map.mp hc
  exact isListed_of_mem_inLines classDeclaration_heads (by decide) (by decide)
    isExportHead_classFront hm hexport

lemma isListed_interface {i : InterfaceFact} (hi : i ∈ interfaces content)
    (hexport : i.isExported = true) :
    IsListed (exports content facts) i.name ∨ IsOvertaken content i.name := by
  obtain ⟨m, hm, rfl⟩ := List.mem_map.mp hi
  exact isListed_of_mem_inLines interfaceDeclaration_heads (by decide) (by decide)
    isExportHead_interfaceFront hm hexport

lemma isListed_function {f : FunctionFact} (hf : f ∈ functions content)
    (hexport : f.isExported = true) :
    IsListed (exports content facts) f.name ∨ IsOvertaken content f.name ∨
      IsAttached content f.name := by
  rcases List.mem_append.mp hf with hf | hf
  · obtain ⟨m, hm, rfl⟩ := List.mem_map.mp hf
    obtain ⟨line, indent, before, ident, more, added, hhead, hspans, hname, hgroup, hgroups⟩ :=
      exists_head functionDeclaration_heads (by decide) hm
    have hmarked : (added.lookup 1).isSome = true := by
      rw [← hgroups 1 (by decide)]
      exact hexport
    show IsListed _ (m.group 3) ∨ _ ∨ IsAttached content (m.group 3)
    rw [hgroup]
    -- the pattern of the exports wants a blank before the name, this one does not
    rcases isExportHead_functionFront hspans hmarked hname with
      hhere | ⟨earlier, between, rfl, hearlier, hmark, hblank⟩
    · exact (isListed_of_head hhead hhere).imp_right .inl
    · have hident : (String.ofList ident).toList = ident := String.toList_ofList
      refine .inr (.inr ⟨⟨line ++ indent ++ earlier, "function", between, more, ?_,
        endsApart_append (IsHead.endsApart hhead) hearlier, hmark, ?_⟩, rfl, hblank⟩)
      · rw [hhead.text_eq, hident]
        simp only [List.append_assoc]
      · rwa [hident]
  · obtain ⟨m, hm, rfl⟩ := List.mem_map.mp hf
    exact (isListed_of_mem_inLines arrowFunction_heads (by decide) (by decide)
      isExportHead_arrowFront hm hexport).imp_right .inl

end DirectoryNotes.Source
