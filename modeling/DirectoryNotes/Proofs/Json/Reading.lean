import DirectoryNotes.Proofs.Json.Tokens

/-!
# Reading what the grammar allows

Whatever a value is written with, it is read back:

* `Reads`: what the reader makes of the tokens of a part, in whichever list or object it stands;
* `exists_tokens_of_isWritten`: every part of a text is cut into tokens of which the reader makes it;
* `read?_of_isText`: every text is read as the value that it is written for.
-/

namespace DirectoryNotes.Json

open ReadState

variable {v : Json} {vs : List Json} {fs before : OpenFields} {name? : Option String}
  {ts us : List Token} {frames : List Frame} {part : Part} {cs : List Char}

/-! ## One token -/

lemma run_next {state : ReadState} {token : Token} {rest : List Token} (next : ReadState)
    (h : state.step token = some next) : state.run (token :: rest) = next.run rest := by
  rw [run, h]
  rfl

/-! ## What is expected -/

/-- Tokens that do not begin with the end of a list. -/
def GoesOn (ts : List Token) : Prop := ∃ token rest, ts = token :: rest ∧ token ≠ .closeList

/-- Tokens that begin with the name of a field. -/
def Names (ts : List Token) : Prop :=
  ∃ token rest name?, ts = token :: rest ∧ fieldName? token = some name?

/-- What the reader makes of the tokens of a part, whatever is open already. -/
def Reads : Part → List Token → Prop
  | .value v, ts | .element v, ts => GoesOn ts ∧
    ∀ frames rest, run ⟨.value, frames⟩ (ts ++ rest) = run ⟨.after v, frames⟩ rest
  | .items vs, ts => GoesOn ts ∧ ∀ before frames rest,
    run ⟨.value, .list before :: frames⟩ (ts ++ .closeList :: rest) =
      run ⟨.after (.list (before.reverse ++ vs)), frames⟩ rest
  | .field name? v, ts => Names ts ∧ ∀ before frames rest,
    run ⟨.field before, frames⟩ (ts ++ rest) = run ⟨.after v, .object before name? :: frames⟩ rest
  | .fields fs, ts => Names ts ∧ ∀ before frames rest,
    run ⟨.field before, frames⟩ (ts ++ .closeObject :: rest) =
      run ⟨.after (OpenFields.close (fs.reverse ++ before)), frames⟩ rest

lemma GoesOn.append (h : GoesOn ts) (us : List Token) : GoesOn (ts ++ us) := by
  obtain ⟨token, rest, rfl, hopen⟩ := h
  exact ⟨token, rest ++ us, rfl, hopen⟩

lemma Names.append (h : Names ts) (us : List Token) : Names (ts ++ us) := by
  obtain ⟨token, rest, name?, rfl, hname⟩ := h
  exact ⟨token, rest ++ us, name?, rfl, hname⟩

/-- The first item of a list is read as any other. -/
lemma GoesOn.run_itemOrEnd (h : GoesOn ts) (frames : List Frame) :
    run ⟨.itemOrEnd, frames⟩ ts = run ⟨.value, .list [] :: frames⟩ ts := by
  obtain ⟨token, rest, rfl, hopen⟩ := h
  have hstep : step ⟨.itemOrEnd, frames⟩ token = step ⟨.value, .list [] :: frames⟩ token := by
    cases token <;> first | rfl | exact absurd rfl hopen
  rw [run, run, hstep]

/-- The first field of an object is read as any other. -/
lemma Names.run_fieldOrEnd (h : Names ts) (frames : List Frame) :
    run ⟨.fieldOrEnd, frames⟩ ts = run ⟨.field [], frames⟩ ts := by
  obtain ⟨token, rest, name?, rfl, hname⟩ := h
  have hstep : step ⟨.fieldOrEnd, frames⟩ token = step ⟨.field [], frames⟩ token := by
    cases token <;> first | rfl | cases hname
  rw [run, run, hstep]

/-! ## Values -/

lemma reads_value (v : Json) : Reads (.value v) [.value v] :=
  ⟨⟨_, _, rfl, by simp⟩, fun _ _ => run_next _ rfl⟩

lemma reads_emptyList : Reads (.value (.list [])) [.openList, .closeList] :=
  ⟨⟨_, _, rfl, by simp⟩, fun frames _ => (run_next ⟨.itemOrEnd, frames⟩ rfl).trans (run_next _ rfl)⟩

lemma reads_emptyObject : Reads (.value (.object [])) [.openObject, .closeObject] :=
  ⟨⟨_, _, rfl, by simp⟩, fun frames _ => (run_next ⟨.fieldOrEnd, frames⟩ rfl).trans (run_next _ rfl)⟩

/-- A list is read item by item. -/
lemma reads_list (h : Reads (.items vs) ts) :
    Reads (.value (.list vs)) (.openList :: ts ++ [.closeList]) := by
  obtain ⟨hgoes, hrun⟩ := h
  refine ⟨⟨_, _, rfl, by simp⟩, fun frames rest => ?_⟩
  rw [List.cons_append, List.cons_append, List.append_assoc, List.singleton_append,
    run_next ⟨.itemOrEnd, frames⟩ rfl, (hgoes.append _).run_itemOrEnd, hrun]
  rfl

/-- An object is read field by field. -/
lemma reads_object (h : Reads (.fields fs) ts) :
    Reads (.value (OpenFields.close fs.reverse)) (.openObject :: ts ++ [.closeObject]) := by
  obtain ⟨hnames, hrun⟩ := h
  refine ⟨⟨_, _, rfl, by simp⟩, fun frames rest => ?_⟩
  rw [List.cons_append, List.cons_append, List.append_assoc, List.singleton_append,
    run_next ⟨.fieldOrEnd, frames⟩ rfl, (hnames.append _).run_fieldOrEnd, hrun, List.append_nil]

lemma reads_item (h : Reads (.element v) ts) : Reads (.items [v]) ts := by
  obtain ⟨hgoes, hrun⟩ := h
  refine ⟨hgoes, fun before frames rest => ?_⟩
  rw [hrun, run_next _ rfl, List.reverse_cons]

/-- After an item and a comma come the others. -/
lemma reads_items (h : Reads (.element v) ts) (hothers : Reads (.items vs) us) :
    Reads (.items (v :: vs)) (ts ++ .comma :: us) := by
  obtain ⟨hgoes, hrun⟩ := h
  obtain ⟨-, hothers⟩ := hothers
  refine ⟨hgoes.append _, fun before frames rest => ?_⟩
  rw [List.append_assoc, hrun, List.cons_append,
    run_next ⟨.value, .list (v :: before) :: frames⟩ rfl, hothers, List.reverse_cons,
    List.append_assoc, List.singleton_append]

lemma fieldName?_textOfUnits (units : List Nat) :
    fieldName? (.value (textOfUnits units.reverse)) = some (nameOfUnits? units) := by
  unfold textOfUnits nameOfUnits?
  rw [List.reverse_reverse]
  cases charsOfUnits? units <;> rfl

/-- After the name of a field and a colon comes its value. -/
lemma reads_field {units : List Nat} (h : Reads (.element v) ts) :
    Reads (.field (nameOfUnits? units) v)
      (.value (textOfUnits units.reverse) :: .colon :: ts) := by
  obtain ⟨-, hrun⟩ := h
  have hname := fieldName?_textOfUnits units
  refine ⟨⟨_, _, _, rfl, hname⟩, fun before frames rest => ?_⟩
  have hstep : step ⟨.field before, frames⟩ (.value (textOfUnits units.reverse)) =
      some ⟨.colon before (nameOfUnits? units), frames⟩ := by
    simp only [step, hname, Option.map_some]
  rw [List.cons_append, List.cons_append, run_next _ hstep,
    run_next ⟨.value, .object before (nameOfUnits? units) :: frames⟩ rfl, hrun]

lemma reads_lastField (h : Reads (.field name? v) ts) : Reads (.fields [(name?, v)]) ts := by
  obtain ⟨hnames, hrun⟩ := h
  refine ⟨hnames, fun before frames rest => ?_⟩
  rw [hrun, run_next _ rfl]
  rfl

/-- After a field and a comma come the others. -/
lemma reads_fields (h : Reads (.field name? v) ts) (hothers : Reads (.fields fs) us) :
    Reads (.fields ((name?, v) :: fs)) (ts ++ .comma :: us) := by
  obtain ⟨hnames, hrun⟩ := h
  obtain ⟨-, hothers⟩ := hothers
  refine ⟨hnames.append _, fun before frames rest => ?_⟩
  rw [List.append_assoc, hrun, List.cons_append, run_next ⟨.field ((name?, v) :: before), frames⟩ rfl,
    hothers, List.reverse_cons, List.append_assoc, List.singleton_append]

/-! ## Texts -/

lemma scansApart_comma : ScansApart [','] [.comma] := scansApart_mark rfl

/-- What stands between two brackets. -/
lemma scans_bracketed {first last : Char} {opening closing : Token}
    (hfirst : ScanState.start first = some ([opening], .between))
    (hlast : ScanState.start last = some ([closing], .between))
    (hdelimits : last.isLower = false ∧ ScanState.isNumberChar last = false) (h : Scans cs ts) :
    Scans (first :: cs ++ [last]) (opening :: ts ++ [closing]) := by
  have hinner := h.append_apart (scansApart_mark hlast) fun _ => isDelimited_cons hdelimits
  simpa using ((scansApart_mark hfirst).append_apart hinner).scans

/-- Two parts with a comma between them. -/
lemma scans_comma {ds : List Char} (h : Scans cs ts) (hothers : Scans ds us) :
    Scans (cs ++ ',' :: ds) (ts ++ .comma :: us) := by
  have hfirst := h.append_apart scansApart_comma fun _ => isDelimited_cons (by decide)
  simpa using hfirst.append hothers

/-- Every part of a text is cut into tokens, and of these the reader makes what it is written for. -/
theorem exists_tokens_of_isWritten (h : IsWritten part cs) : ∃ ts, Scans cs ts ∧ Reads part ts := by
  induction h with
  | null => exact ⟨_, scans_word (by decide) rfl rfl, reads_value _⟩
  | false => exact ⟨_, scans_word (by decide) rfl rfl, reads_value _⟩
  | true => exact ⟨_, scans_word (by decide) rfl rfl, reads_value _⟩
  | number hnumber => exact ⟨_, scans_number hnumber, reads_value _⟩
  | text hspelled => exact ⟨_, (scansApart_text hspelled).scans, reads_value _⟩
  | emptyList hgap =>
    exact ⟨_, scans_bracketed rfl rfl (by decide) (scansApart_gap hgap).scans, reads_emptyList⟩
  | list _ ih =>
    obtain ⟨ts, hscans, hreads⟩ := ih
    exact ⟨_, scans_bracketed rfl rfl (by decide) hscans, reads_list hreads⟩
  | emptyObject hgap =>
    exact ⟨_, scans_bracketed rfl rfl (by decide) (scansApart_gap hgap).scans, reads_emptyObject⟩
  | object _ ih =>
    obtain ⟨ts, hscans, hreads⟩ := ih
    exact ⟨_, scans_bracketed rfl rfl (by decide) hscans, reads_object hreads⟩
  | element hbefore _ hafter ih =>
    obtain ⟨ts, hscans, hreads⟩ := ih
    exact ⟨ts, (scansApart_gap hbefore).append hscans |>.append_gap hafter, hreads⟩
  | item _ ih =>
    obtain ⟨ts, hscans, hreads⟩ := ih
    exact ⟨ts, hscans, reads_item hreads⟩
  | items _ _ ih ihothers =>
    obtain ⟨ts, hscans, hreads⟩ := ih
    obtain ⟨us, hothers, hreads'⟩ := ihothers
    exact ⟨_, scans_comma hscans hothers, reads_items hreads hreads'⟩
  | @field v units before name after cs hbefore hspelled hafter _ ih =>
    obtain ⟨ts, hscans, hreads⟩ := ih
    have hname := ((scansApart_gap hbefore).append_apart (scansApart_text hspelled)).append_gap hafter
    have hcolon : ScansApart [':'] [.colon] := scansApart_mark rfl
    have hfield := (hname.append_apart hcolon).append hscans
    exact ⟨_, by simpa using hfield, reads_field hreads⟩
  | lastField _ ih =>
    obtain ⟨ts, hscans, hreads⟩ := ih
    exact ⟨ts, hscans, reads_lastField hreads⟩
  | fields _ _ ih ihothers =>
    obtain ⟨ts, hscans, hreads⟩ := ih
    obtain ⟨us, hothers, hreads'⟩ := ihothers
    exact ⟨_, scans_comma hscans hothers, reads_fields hreads hreads'⟩

/-- A text is read as the value that it is written for. -/
theorem read?_of_isText {s : String} (h : IsText v s) : read? s = some v := by
  obtain ⟨ts, hscans, -, hrun⟩ := exists_tokens_of_isWritten h
  have htokens : tokens? s.toList = some ts := by
    have hend := hscans [] (by simp [IsDelimited])
    rw [List.append_nil] at hend
    rw [tokens?, hend]
    simp [ScanState.run, ScanState.finish]
  have hvalue := hrun [] []
  rw [List.append_nil] at hvalue
  unfold read?
  rw [htokens]
  exact hvalue

end DirectoryNotes.Json
