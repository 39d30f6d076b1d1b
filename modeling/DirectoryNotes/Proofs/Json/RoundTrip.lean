import DirectoryNotes.Json.Decode
import DirectoryNotes.Json.Printer
import DirectoryNotes.Proofs.Json.Reading

/-!
# Reading what was written

A value in writing keeps to the grammar, so it is read back:

* `IsExact`: the values that can be written;
* `isNumber_digits`, `isSpelled_escaped`: integers, and texts with their escapes;
* `isWritten_prettyChars`, `read?_pretty`: a value that is written on lines of its own is read back as
  it was;
* `IsEdit`, `asFields?_edited`: of a structure, the fields that an edit keeps are found;
* `asFields?_object`, `asList?_map`, `asNatBelow?_nat`: structures, lists and numbers are decoded to
  what they were made of.
-/

namespace DirectoryNotes.Json

variable {v : Json}

mutual

/-- A value that can be written: every decimal in it is a number as it stands there, and nothing in it
is broken. -/
def IsExact : Json → Prop
  | .decimal written => IsNumber written (.decimal written)
  | .broken => False
  | .list items => AreExact items
  | .object fields => HasExactFields fields
  | _ => True

/-- Items that can be written. -/
def AreExact : List Json → Prop
  | [] => True
  | v :: rest => IsExact v ∧ AreExact rest

/-- Fields with values that can be written. -/
def HasExactFields : List (String × Json) → Prop
  | [] => True
  | (_, v) :: rest => IsExact v ∧ HasExactFields rest

end

/-! ## Integers -/

lemma head?_toDigits {n : Nat} (h : 0 < n) : (Nat.toDigits 10 n).head? ≠ some '0' := by
  induction n using Nat.strongRecOn with
  | ind n ih =>
    by_cases hn : n < 10
    · rw [Nat.toDigits_of_lt_base hn]
      have hdigits : ∀ m < 10, 0 < m → [Nat.digitChar m].head? ≠ some '0' := by decide
      exact hdigits n hn h
    · -- the first digit is that of a tenth of the number
      have hle : 10 ≤ n := Nat.le_of_not_lt hn
      have htenth := ih (n / 10) (by omega) (by omega)
      obtain ⟨d, ds, hds⟩ := List.exists_cons_of_ne_nil (Nat.toDigits_ne_nil (n := n / 10) (b := 10))
      rw [hds] at htenth
      rw [Nat.toDigits_of_base_le (by decide) hle, hds]
      exact htenth

lemma isWhole_toDigits (n : Nat) : IsWhole (Nat.toDigits 10 n) where
  ne_nil := Nat.toDigits_ne_nil
  all _ hc := Nat.isDigit_of_mem_toDigits (by decide) (by decide) hc
  zero_alone hzero := by
    by_cases hn : 0 < n
    · exact absurd hzero (head?_toDigits hn)
    · obtain rfl : n = 0 := by omega
      rw [Nat.toDigits_zero]

lemma isNumber_digits (n : Int) : IsNumber (digits n) (.integer n) := by
  have hwhole := isWhole_toDigits n.natAbs
  have hvalue : Nat.ofDigitChars 10 (Nat.toDigits 10 n.natAbs) 0 = n.natAbs :=
    Nat.ofDigitChars_ten_toDigits
  unfold digits
  split
  · next hneg =>
    have hnumber := IsNumber.negative hwhole (by omega)
    rw [hvalue] at hnumber
    have habs : -(n.natAbs : Int) = n := by omega
    rwa [habs] at hnumber
  · next hpos =>
    have hnumber := IsNumber.natural hwhole
    rw [hvalue] at hnumber
    have habs : (n.natAbs : Int) = n := by omega
    rwa [habs] at hnumber

/-! ## Texts -/

lemma hexValue?_hexDigit {n : Nat} (h : n < 16) : hexValue? (hexDigit n) = some n := by
  have hall : ∀ n < 16, hexValue? (hexDigit n) = some n := by decide
  exact hall n h

/-- A character is escaped by a letter, or by its code, or stands for itself. -/
lemma escaped_cases (c : Char) :
    (∃ d, escaped c = ['\\', d] ∧ shortEscape? d = some c.toNat ∧ d ≠ 'u') ∨
    (c.toNat < 0x20 ∧ escaped c =
      ['\\', 'u', '0', '0', hexDigit (c.toNat / 16), hexDigit (c.toNat % 16)]) ∨
    (escaped c = [c] ∧ c ≠ '\x22' ∧ c ≠ '\\' ∧ ¬c.toNat < 0x20) := by
  by_cases hsmall : c.toNat < 0x20
  · -- of the small ones five have a letter
    by_cases hletter : c ∈ ['\x08', '\x0c', '\n', '\r', '\t']
    · simp only [List.mem_cons, List.not_mem_nil, or_false] at hletter
      rcases hletter with rfl | rfl | rfl | rfl | rfl
      · exact .inl ⟨'b', rfl, rfl, by decide⟩
      · exact .inl ⟨'f', rfl, rfl, by decide⟩
      · exact .inl ⟨'n', rfl, rfl, by decide⟩
      · exact .inl ⟨'r', rfl, rfl, by decide⟩
      · exact .inl ⟨'t', rfl, rfl, by decide⟩
    · have hne : ∀ d : Char, ¬d.toNat < 0x20 → c ≠ d := fun d hd heq => hd (heq ▸ hsmall)
      simp only [List.mem_cons, List.not_mem_nil, or_false, not_or] at hletter
      obtain ⟨hb, hf, hn, hr, ht⟩ := hletter
      refine .inr (.inl ⟨hsmall, ?_⟩)
      rw [escaped, if_neg (hne '\x22' (by decide)), if_neg (hne '\\' (by decide)), if_neg hb, if_neg hf,
        if_neg hn, if_neg hr, if_neg ht, if_pos hsmall]
  · by_cases hquote : c = '\x22'
    · exact .inl ⟨'\x22', by rw [hquote]; rfl, by rw [hquote]; rfl, by decide⟩
    · by_cases hback : c = '\\'
      · exact .inl ⟨'\\', by rw [hback]; rfl, by rw [hback]; rfl, by decide⟩
      · have hne : ∀ d : Char, d.toNat < 0x20 → c ≠ d := fun d hd heq => hsmall (heq ▸ hd)
        refine .inr (.inr ⟨?_, hquote, hback, hsmall⟩)
        rw [escaped, if_neg hquote, if_neg hback, if_neg (hne '\x08' (by decide)),
          if_neg (hne '\x0c' (by decide)), if_neg (hne '\n' (by decide)),
          if_neg (hne '\r' (by decide)), if_neg (hne '\t' (by decide)), if_neg hsmall]

/-- The escapes of characters are spelled with their codes. -/
lemma isSpelled_escaped (cs : List Char) : IsSpelled (cs.flatMap escaped) (cs.map Char.toNat) := by
  induction cs with
  | nil => exact .nil
  | cons c cs ih =>
    rw [List.flatMap_cons, List.map_cons]
    rcases escaped_cases c with ⟨d, heq, hd, -⟩ | ⟨hsmall, heq⟩ | ⟨heq, hquote, hplain, hlarge⟩
    · rw [heq]
      exact .letter hd ih
    · rw [heq]
      have hzero : hexValue? '0' = some 0 := by decide
      have hcode := IsSpelled.code hzero hzero
        (hexValue?_hexDigit (by omega : c.toNat / 16 < 16))
        (hexValue?_hexDigit (by omega : c.toNat % 16 < 16)) ih
      rwa [Nat.mul_zero, Nat.zero_add, Nat.div_add_mod] at hcode
    · rw [heq]
      exact .plain hquote hplain (Nat.not_lt.mp hlarge) ih

/-- The code of a character is no half of a pair. -/
lemma not_isSurrogate (c : Char) :
    isHighSurrogate c.toNat = false ∧ isLowSurrogate c.toNat = false := by
  have hvalid : c.toNat < 0xD800 ∨ 0xDFFF < c.toNat ∧ c.toNat < 0x110000 := c.valid
  simp only [isHighSurrogate, isLowSurrogate, Bool.and_eq_false_iff, decide_eq_false_iff_not]
  omega

lemma charsOfUnits?_map_toNat (cs : List Char) : charsOfUnits? (cs.map Char.toNat) = some cs := by
  induction cs with
  | nil => rfl
  | cons c cs ih =>
    obtain ⟨hhigh, hlow⟩ := not_isSurrogate c
    cases cs with
    | nil => simp [charsOfUnits?, hhigh, hlow, Char.ofNat_toNat]
    | cons d ds =>
      rw [List.map_cons, List.map_cons] at *
      simp only [charsOfUnits?, hhigh, hlow, ih, Bool.false_and, Bool.or_false, Bool.false_eq_true,
        if_false, Option.map_some, Char.ofNat_toNat]

lemma textOfUnits_reverse (s : String) : textOfUnits (s.toList.map Char.toNat).reverse = .text s := by
  unfold textOfUnits
  rw [List.reverse_reverse, charsOfUnits?_map_toNat]
  simp

lemma nameOfUnits?_toNat (s : String) : nameOfUnits? (s.toList.map Char.toNat) = some s := by
  unfold nameOfUnits?
  rw [charsOfUnits?_map_toNat]
  simp

lemma isWritten_quoted (s : String) : IsWritten (.value (.text s)) (quoted s) := by
  have htext := IsWritten.text (isSpelled_escaped s.toList)
  rwa [textOfUnits_reverse] at htext

/-! ## Values -/

/-- Fields as the grammar has them, each with a name. -/
def named (fields : List (String × Json)) : OpenFields :=
  fields.map fun field => (some field.1, field.2)

lemma close_named (fields : List (String × Json)) :
    OpenFields.close (named fields).reverse = .object fields := by
  have hnamed : (named fields).mapM (fun field => field.1.map (·, field.2)) = some fields := by
    induction fields with
    | nil => rfl
    | cons field rest ih =>
      rw [named, List.map_cons, List.mapM_cons, ← named, ih]
      rfl
  unfold OpenFields.close
  rw [List.reverse_reverse, hnamed]

lemma isGap_newLine (level : Nat) : IsGap (newLine level) := by
  intro c hc
  rcases List.mem_cons.mp hc with rfl | hc
  · exact .inr (.inl rfl)
  · exact .inl (List.eq_of_mem_replicate hc)

lemma isGap_nil : IsGap [] := by decide

lemma isWritten_bool (b : Bool) : IsWritten (.value (.bool b)) (scalar (.bool b)) := by
  cases b with
  | true =>
    have hchars : scalar (.bool true) = ['t', 'r', 'u', 'e'] := String.toList_ofList
    rw [hchars]
    exact .true
  | false =>
    have hchars : scalar (.bool false) = ['f', 'a', 'l', 's', 'e'] := String.toList_ofList
    rw [hchars]
    exact .false

lemma isWritten_null : IsWritten (.value .null) (scalar .null) := by
  have hchars : scalar .null = ['n', 'u', 'l', 'l'] := String.toList_ofList
  rw [hchars]
  exact .null

/-- A field on a line of its own. -/
lemma isWritten_prettyField {gap cs : List Char} (level : Nat) (name : String)
    (h : IsWritten (.value v) cs) (hgap : IsGap gap) :
    IsWritten (.field (some name) v) (newLine level ++ quoted name ++ ':' :: ' ' :: cs ++ gap) := by
  have hblank : IsGap [' '] := by decide
  have hfield := IsWritten.field (isGap_newLine level) (isSpelled_escaped name.toList) isGap_nil
    (.element hblank h hgap)
  rw [nameOfUnits?_toNat] at hfield
  simpa [quoted] using hfield

mutual

/-- A value on lines of its own keeps to the grammar. -/
theorem isWritten_prettyChars (level : Nat) : (v : Json) → IsExact v →
    IsWritten (.value v) (prettyChars level v)
  | .null, _ => isWritten_null
  | .bool b, _ => isWritten_bool b
  | .integer n, _ => .number (isNumber_digits n)
  | .decimal _, h => .number h
  | .text s, _ => isWritten_quoted s
  | .broken, h => absurd h (by simp [IsExact])
  | .list [], _ => .emptyList isGap_nil
  | .list (v :: rest), h => by
    have hitems := isWritten_prettyItems (level + 1) (v :: rest) (by simp) h (isGap_newLine level)
    simpa [prettyChars] using IsWritten.list hitems
  | .object [], _ => .emptyObject isGap_nil
  | .object (field :: rest), h => by
    have hfields := isWritten_prettyFields (level + 1) (field :: rest) (by simp) h
      (isGap_newLine level)
    have hobject := IsWritten.object hfields
    rw [close_named] at hobject
    simpa [prettyChars] using hobject

/-- Items on lines of their own, with what comes before the closing bracket. -/
theorem isWritten_prettyItems (level : Nat) : (items : List Json) → items ≠ [] → AreExact items →
    ∀ {gap}, IsGap gap → IsWritten (.items items) (prettyItems level items ++ gap)
  | [], hne, _, _, _ => absurd rfl hne
  | [v], _, h, _, hgap =>
    .item (.element (isGap_newLine level) (isWritten_prettyChars level v h.1) hgap)
  | v :: w :: rest, _, h, gap, hgap => by
    have hfirst := IsWritten.element (isGap_newLine level) (isWritten_prettyChars level v h.1)
      isGap_nil
    have hothers := isWritten_prettyItems level (w :: rest) (by simp) h.2 hgap
    simpa [prettyItems] using IsWritten.items hfirst hothers

/-- Fields on lines of their own, with what comes before the closing bracket. -/
theorem isWritten_prettyFields (level : Nat) : (fields : List (String × Json)) → fields ≠ [] →
    HasExactFields fields → ∀ {gap}, IsGap gap →
    IsWritten (.fields (named fields)) (prettyFields level fields ++ gap)
  | [], hne, _, _, _ => absurd rfl hne
  | [(name, v)], _, h, _, hgap =>
    .lastField (isWritten_prettyField level name (isWritten_prettyChars level v h.1) hgap)
  | (name, v) :: field :: rest, _, h, gap, hgap => by
    have hfirst := isWritten_prettyField level name (isWritten_prettyChars level v h.1) isGap_nil
    have hothers := isWritten_prettyFields level (field :: rest) (by simp) h.2 hgap
    simpa [prettyFields, named] using IsWritten.fields hfirst hothers

end

/-- A value on lines of its own is a text of it, with blanks behind it or without. -/
theorem isText_pretty (h : IsExact v) {blanks : String} (hblanks : IsGap blanks.toList) :
    IsText v (v.pretty ++ blanks) := by
  have helement := IsWritten.element isGap_nil (isWritten_prettyChars 0 v h) hblanks
  simpa [IsText, pretty] using helement

/-- A value in writing is read back as it was, with blanks behind it or without. -/
theorem read?_pretty (h : IsExact v) {blanks : String} (hblanks : IsGap blanks.toList) :
    read? (v.pretty ++ blanks) = some v :=
  read?_of_isText (isText_pretty h hblanks)

/-! ## Structures -/

/-- A field whose name is not repeated is found under it. -/
lemma lookup_of_nodup {fields : List (String × Json)} {field : String × Json}
    (hnodup : (fields.map (·.1)).Nodup) (h : field ∈ fields) :
    fields.lookup field.1 = some field.2 := by
  obtain ⟨before, after, rfl⟩ := List.append_of_mem h
  rw [List.map_append, List.map_cons] at hnodup
  have hbefore : before.lookup field.1 = none := by
    rw [List.lookup_eq_none_iff]
    intro other hother
    have hne : other.1 ≠ field.1 := (List.nodup_append.mp hnodup).2.2 _
      (List.mem_map_of_mem hother) _ List.mem_cons_self
    exact bne_iff_ne.mpr hne.symm
  rw [List.lookup_append, hbefore, List.lookup_cons_self]
  rfl

/-- The fields of an object after an edit: of the saved ones those whose names are kept, in any order,
and among them any others, with names that no saved one has. -/
def IsEdit (kept : String → Bool) (saved edited : List (String × Json)) : Prop :=
  (edited.filter fun field => (saved.map (·.1)).contains field.1).Perm
    (saved.filter fun field => kept field.1)

lemma isEdit_self (saved : List (String × Json)) : IsEdit (fun _ => true) saved saved := by
  unfold IsEdit
  rw [List.filter_eq_self.mpr, List.filter_eq_self.mpr]
  · simp
  · exact fun field hfield => List.contains_iff_mem.mpr (List.mem_map_of_mem hfield)

/-- After an edit the fields that are kept have their values, and the others of a structure none. -/
lemma asFields?_edited {kept : String → Bool} {names : List String}
    {saved edited : List (String × Json)} (hnames : saved.map (·.1) = names) (hnodup : names.Nodup)
    (h : IsEdit kept saved edited) : (Json.object edited).asFields? names =
      some (saved.map fun field => (field.1, if kept field.1 then some field.2 else none)) := by
  subst hnames
  have hmem := fun field => h.mem_iff (a := field)
  simp only [asFields?]
  unfold IsEdit at h
  generalize edited.filter (fun field => (saved.map (·.1)).contains field.1) = known at h hmem ⊢
  have hknown : (known.map (·.1)).Nodup := by
    rw [(h.map (·.1)).nodup_iff]
    exact hnodup.sublist (List.filter_sublist.map _)
  rw [if_pos hknown, List.map_map]
  congr 1
  refine List.map_congr_left fun field hfield => ?_
  rw [Function.comp_apply]
  split
  · next hkept =>
    have hin : field ∈ known := (hmem field).mpr (List.mem_filter.mpr ⟨hfield, hkept⟩)
    rw [lookup_of_nodup hknown hin]
  · next hkept =>
    have hnone : known.lookup field.1 = none := by
      rw [List.lookup_eq_none_iff]
      intro other hother
      refine bne_iff_ne.mpr fun heq => hkept ?_
      rw [heq]
      exact (List.mem_filter.mp ((hmem other).mp hother)).2
    rw [hnone]

/-- An object has a value for each field of a structure with its names. -/
lemma asFields?_object {names : List String} {fields : List (String × Json)}
    (hnames : fields.map (·.1) = names) (hnodup : names.Nodup) :
    (Json.object fields).asFields? names =
      some (fields.map fun field => (field.1, some field.2)) :=
  asFields?_edited hnames hnodup (isEdit_self fields)

/-- A field with a default has its value if it is kept, and the default otherwise. -/
lemma orElse?_edited {α : Type} {kept : String → Bool} {saved : List (String × Json)} {name : String}
    {default a : α} {decode? : Json → Option α} {j : Json} (hsaved : saved.lookup name = some j)
    (hdecode : decode? j = some a) :
    Fields.orElse? (saved.map fun field => (field.1, if kept field.1 then some field.2 else none)) name
      default decode? = some (if kept name then a else default) := by
  have hlookup : ∀ fields : List (String × Json),
      (fields.map fun field => (field.1, if kept field.1 then some field.2 else none)).lookup name =
        (fields.lookup name).map fun v => if kept name then some v else none := by
    intro fields
    induction fields with
    | nil => rfl
    | cons field rest ih =>
      rw [List.map_cons, List.lookup_cons, List.lookup_cons]
      by_cases heq : name = field.1
      · simp [heq]
      · simp [beq_false_of_ne heq, ih]
  unfold Fields.orElse?
  rw [hlookup, hsaved]
  cases kept name with
  | true => simpa using hdecode
  | false => rfl

/-- A field that must be there is the first one of its name. -/
lemma need?_cons {α : Type} (key : String) (j? : Option Json) (rest : Fields) (name : String)
    (decode? : Json → Option α) :
    Fields.need? ((key, j?) :: rest) name decode? =
      if name = key then j?.bind decode? else Fields.need? rest name decode? := by
  unfold Fields.need?
  rw [List.lookup_cons]
  by_cases h : name = key
  · rw [if_pos h, beq_iff_eq.mpr h]
    rfl
  · rw [if_neg h, beq_false_of_ne h]

/-! ## Lists and numbers -/

section
variable {α : Type} {encode : α → Json} {decode? : Json → Option α}

/-- A list is decoded to what its items are decoded to. -/
lemma asList?_map (h : ∀ a, decode? (encode a) = some a) (items : List α) :
    (Json.list (items.map encode)).asList? decode? = some items := by
  have hitems : (items.map encode).mapM decode? = some items := by
    induction items with
    | nil => rfl
    | cons a rest ih =>
      rw [List.map_cons, List.mapM_cons, h, ih]
      rfl
  exact hitems

lemma areExact_map (h : ∀ a, IsExact (encode a)) (items : List α) :
    AreExact (items.map encode) := by
  induction items with
  | nil => trivial
  | cons a rest ih => exact ⟨h a, ih⟩

end

lemma asTexts?_texts (values : List String) : (texts values).asTexts? = some values := by
  have htext : ∀ s, asText? (.text s) = some s := fun _ => rfl
  exact asList?_map htext values

lemma isExact_texts (values : List String) : IsExact (texts values) := by
  have htext : ∀ s, IsExact (.text s) := fun _ => trivial
  exact areExact_map htext values

/-- A number is decoded to itself below the limit. -/
lemma asNatBelow?_nat {n limit : Nat} (h : n < limit) : (nat n).asNatBelow? limit = some n := by
  have hbounds : 0 ≤ (n : Int) ∧ (n : Int) < limit := by omega
  simp [nat, asNatBelow?, hbounds]

end DirectoryNotes.Json
