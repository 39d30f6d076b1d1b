import DirectoryNotes.Agent.Questions
import DirectoryNotes.Proofs.Json.RoundTrip
import DirectoryNotes.Proofs.Text.Bytes
import Mathlib.Data.List.TakeWhile

/-!
# Objects in the middle of an answer

An answer that is no value as a whole is searched for an object, from its first opening brace to its
last closing one. An object with text around it is found as it is, whatever stands in its texts:

* `IsFramed`: an object with text around it, and `Closes`: a closing brace comes after an opening one;
* `IsFramed.braced?_eq`, `braced?_eq_none_iff`: what the search finds;
* `IsSlice`: where that is among the bytes of the answer, and `IsFramed.exists_isSlice`: it is cut
  out between characters;
* `ReadsEmbedded`: what reading such answers comes to;
* `embedded_answers_read`: all of it for both kinds of answers.
-/

namespace DirectoryNotes

open Text (bytesOf)

variable {α : Type} {before object after answer : String} {decode? : Json → Option α}

/-! ## Text around an object -/

/-- An object with text around it: the first opening brace and the last closing one are its own. -/
structure IsFramed (before object after : String) : Prop where
  before : '\x7b' ∉ before.toList
  opens : object.toList.head? = some '\x7b'
  closes : object.toList.getLast? = some '\x7d'
  after : '\x7d' ∉ after.toList

/-- A closing brace comes after an opening one. -/
def Closes (answer : String) : Prop :=
  ∃ front rest, answer.toList = front ++ rest ∧ '\x7b' ∈ front ∧ '\x7d' ∈ rest

/-- What is between the braces of the object. -/
lemma IsFramed.exists_body (h : IsFramed before object after) :
    ∃ body, object.toList = '\x7b' :: (body ++ ['\x7d']) := by
  obtain ⟨body, hbody⟩ := List.getLast?_eq_some_iff.mp h.closes
  have hopens := h.opens
  rw [hbody] at hopens ⊢
  cases body with
  | nil => cases hopens
  | cons c body =>
    obtain rfl : c = '\x7b' := Option.some.inj hopens
    exact ⟨body, rfl⟩

lemma IsFramed.closes_append (h : IsFramed before object after) :
    Closes (before ++ object ++ after) := by
  obtain ⟨body, hbody⟩ := h.exists_body
  refine ⟨before.toList ++ ['\x7b'], body ++ ['\x7d'] ++ after.toList, ?_, by simp, by simp⟩
  simp only [String.toList_append, hbody, List.append_assoc, List.cons_append, List.nil_append]

/-- The outermost braces of an answer make an object. -/
lemma Closes.exists_isFramed (h : Closes answer) :
    ∃ before object after, IsFramed before object after ∧ answer = before ++ object ++ after := by
  obtain ⟨front, rest, hanswer, hopen, hclose⟩ := h
  -- the first brace that opens, and the last that closes
  obtain ⟨before, first, rfl, hbefore⟩ := List.eq_append_cons_of_mem hopen
  obtain ⟨after, last, hrest, hafter⟩ := List.eq_append_cons_of_mem (List.mem_reverse.mpr hclose)
  obtain rfl : rest = last.reverse ++ '\x7d' :: after.reverse := by
    rw [← List.reverse_reverse rest, hrest]
    simp only [List.reverse_append, List.reverse_cons, List.append_assoc, List.cons_append,
      List.nil_append]
  refine ⟨.ofList before, .ofList ('\x7b' :: (first ++ last.reverse ++ ['\x7d'])),
    .ofList after.reverse, ⟨?_, ?_, ?_, ?_⟩, ?_⟩
  · rwa [String.toList_ofList]
  · rw [String.toList_ofList]
    rfl
  · rw [String.toList_ofList, ← List.cons_append, List.getLast?_concat]
  · rwa [String.toList_ofList, List.mem_reverse]
  · rw [← String.toList_inj, hanswer]
    simp only [String.toList_append, String.toList_ofList, List.append_assoc, List.cons_append,
      List.nil_append]

/-! ## The search -/

/-- An object with text around it is found. -/
lemma IsFramed.braced?_eq (h : IsFramed before object after) :
    braced? (before ++ object ++ after) = some object := by
  obtain ⟨body, hbody⟩ := h.exists_body
  have hbefore : ∀ c ∈ before.toList, (c != '\x7b') = true := fun c hc =>
    bne_iff_ne.mpr fun heq => h.before (heq ▸ hc)
  have hafter : ∀ c ∈ after.toList.reverse, (c != '\x7d') = true := fun c hc =>
    bne_iff_ne.mpr fun heq => h.after (heq ▸ List.mem_reverse.mp hc)
  -- the text in front is dropped, and then the text behind
  have hfrom : (before ++ object ++ after).toList.dropWhile (· != '\x7b') =
      '\x7b' :: (body ++ ['\x7d']) ++ after.toList := by
    rw [String.toList_append, String.toList_append, hbody, List.append_assoc,
      List.dropWhile_append_of_pos hbefore]
    rfl
  have hto : ('\x7b' :: (body ++ ['\x7d']) ++ after.toList).reverse.dropWhile (· != '\x7d') =
      ('\x7b' :: (body ++ ['\x7d'])).reverse := by
    rw [List.reverse_append, List.dropWhile_append_of_pos hafter, ← List.cons_append,
      List.reverse_concat]
    rfl
  have hobject : String.ofList ('\x7b' :: (body ++ ['\x7d'])) = object := by
    rw [← hbody, String.ofList_toList]
  unfold braced?
  dsimp only
  rw [hfrom, hto, List.reverse_reverse]
  exact congrArg some hobject

/-- Nothing is found in an answer where no closing brace comes after an opening one. -/
lemma braced?_eq_none (h : ¬Closes answer) : braced? answer = none := by
  have hfrom : '\x7d' ∉ answer.toList.dropWhile (· != '\x7b') := by
    intro hclose
    cases hdrop : answer.toList.dropWhile (· != '\x7b') with
    | nil =>
      rw [hdrop] at hclose
      cases hclose
    | cons c rest =>
      obtain rfl : c = '\x7b' := by
        have hhead := List.head?_dropWhile_not (· != '\x7b') answer.toList
        rw [hdrop] at hhead
        simpa using hhead
      rw [hdrop] at hclose
      refine h ⟨answer.toList.takeWhile (· != '\x7b') ++ ['\x7b'], rest, ?_, by simp, ?_⟩
      · rw [List.append_assoc, List.singleton_append, ← hdrop, List.takeWhile_append_dropWhile]
      · exact (List.mem_cons.mp hclose).resolve_left (by decide)
  have hto : (answer.toList.dropWhile (· != '\x7b')).reverse.dropWhile (· != '\x7d') = [] := by
    refine List.dropWhile_eq_nil_iff.mpr fun c hc => bne_iff_ne.mpr fun heq => hfrom ?_
    exact heq ▸ List.mem_reverse.mp hc
  unfold braced?
  dsimp only
  rw [hto]
  rfl

theorem braced?_eq_none_iff : braced? answer = none ↔ ¬Closes answer := by
  refine ⟨fun hnone hcloses => ?_, braced?_eq_none⟩
  obtain ⟨before, object, after, hframed, rfl⟩ := hcloses.exists_isFramed
  rw [hframed.braced?_eq] at hnone
  cases hnone

/-! ## Bytes -/

/-- The bytes of an answer from its first opening brace to its last closing one: they begin and end
between characters, and they are the object. -/
structure IsSlice (answer object : String) (first last : Nat) : Prop where
  opens : (bytesOf answer)[first]? = some 0x7B
  first_le : ∀ i, (bytesOf answer)[i]? = some 0x7B → first ≤ i
  closes : (bytesOf answer)[last]? = some 0x7D
  le_last : ∀ i, (bytesOf answer)[i]? = some 0x7D → i ≤ last
  begins_valid : (String.Pos.Raw.mk first).IsValid answer
  ends_valid : (String.Pos.Raw.mk (last + 1)).IsValid answer
  extract_eq : String.Pos.Raw.extract answer ⟨first⟩ ⟨last + 1⟩ = object

/-- Where a byte stands that is not among those before it. -/
lemma getElem?_first {bytes front rest : List UInt8} {b : UInt8} (h : bytes = front ++ b :: rest)
    (hfront : b ∉ front) :
    bytes[front.length]? = some b ∧ ∀ i : Nat, bytes[i]? = some b → front.length ≤ i := by
  subst h
  refine ⟨by simp, fun i hi => ?_⟩
  by_contra hlt
  rw [List.getElem?_append_left (Nat.not_le.mp hlt)] at hi
  exact hfront (List.mem_of_getElem? hi)

/-- Where a byte stands that is not among those behind it. -/
lemma getElem?_last {bytes front rest : List UInt8} {b : UInt8} (h : bytes = front ++ b :: rest)
    (hrest : b ∉ rest) :
    bytes[front.length]? = some b ∧ ∀ i : Nat, bytes[i]? = some b → i ≤ front.length := by
  subst h
  refine ⟨by simp, fun i hi => ?_⟩
  by_contra hlt
  obtain ⟨k, rfl⟩ := Nat.exists_eq_add_of_lt (Nat.not_le.mp hlt)
  rw [List.getElem?_append_right (by omega), Nat.add_assoc, Nat.add_sub_cancel_left,
    List.getElem?_cons_succ] at hi
  exact hrest (List.mem_of_getElem? hi)

/-- An object with text around it is cut out of the bytes of an answer. -/
lemma IsFramed.exists_isSlice (h : IsFramed before object after) :
    ∃ first last, first < last ∧ IsSlice (before ++ object ++ after) object first last := by
  obtain ⟨body, hbody⟩ := h.exists_body
  have hobject : object = "\x7b" ++ .ofList body ++ "\x7d" := by
    rw [← String.toList_inj, hbody]
    simp
  have hopening : bytesOf "\x7b" = [0x7B] := by decide
  have hclosing : bytesOf "\x7d" = [0x7D] := by decide
  -- no byte of another character is that of a brace, so the bytes split where the characters do
  have hbytes : bytesOf (before ++ object ++ after) =
      bytesOf before ++ 0x7B :: (bytesOf (.ofList body) ++ 0x7D :: bytesOf after) := by
    simp only [hobject, Text.bytesOf_append, hopening, hclosing, List.append_assoc, List.cons_append,
      List.nil_append]
  have hbytes' : bytesOf (before ++ object ++ after) =
      (bytesOf before ++ 0x7B :: bytesOf (.ofList body)) ++ 0x7D :: bytesOf after := by
    rw [hbytes, List.append_assoc, List.cons_append]
  obtain ⟨hopens, hfirst⟩ := getElem?_first hbytes
    fun hmem => h.before (Text.mem_of_mem_bytesOf (by decide) rfl hmem)
  obtain ⟨hcloses, hlast⟩ := getElem?_last hbytes'
    fun hmem => h.after (Text.mem_of_mem_bytesOf (by decide) rfl hmem)
  -- the byte behind the last brace is the first behind the object
  have hend : (bytesOf before ++ 0x7B :: bytesOf (.ofList body)).length + 1 =
      before.utf8ByteSize + object.utf8ByteSize := by
    rw [← Text.length_bytesOf, ← Text.length_bytesOf object, hobject, Text.bytesOf_append,
      Text.bytesOf_append, hopening, hclosing]
    simp only [List.length_append, List.length_cons, List.length_nil]
    omega
  refine ⟨_, _, ?_, hopens, hfirst, hcloses, hlast, ?_, ?_, ?_⟩
  · rw [List.length_append, List.length_cons]
    omega
  · exact String.Pos.Raw.isValid_iff_exists_append.mpr
      ⟨before, object ++ after, String.append_assoc, rfl⟩
  · rw [hend]
    exact String.Pos.Raw.isValid_iff_exists_append.mpr
      ⟨before ++ object, after, rfl, by rw [String.rawEndPos, String.utf8ByteSize_append]⟩
  · rw [hend, Text.length_bytesOf]
    have hextract := String.extract_of_valid before.toList object.toList after.toList
    simpa [String.append_assoc] using hextract

/-! ## Reading -/

/-- What reading an answer comes to that is no value as a whole. An object that is read as a value is
found in it with any text around it; where no closing brace comes after an opening one, the failure
quotes the beginning of the answer; and whatever fails is the fault of the agent. -/
structure ReadsEmbedded (decode? : Json → Option α) : Prop where
  embedded : ∀ before object after value, IsFramed before object after →
    (Json.read? object).bind decode? = some value →
    (Json.read? (before ++ object ++ after)).bind decode? = none →
      objectIn decode? (before ++ object ++ after) = .ok value
  unbraced : ∀ answer, (Json.read? answer).bind decode? = none → ¬Closes answer →
    objectIn decode? answer = .error (.agent ("agent response is not a JSON object: "
      ++ Text.takeChars 240 (Text.trim answer)))
  agent : ∀ answer failure, objectIn decode? answer = .error failure →
    ∃ reason, failure = .agent reason

lemma readsEmbedded (decode? : Json → Option α) : ReadsEmbedded decode? where
  embedded before object after value hframed hvalue hwhole := by
    unfold objectIn
    rw [hwhole]
    dsimp only
    rw [hframed.braced?_eq]
    dsimp only
    rw [hvalue]
  unbraced answer hwhole hunclosed := by
    unfold objectIn
    rw [hwhole]
    dsimp only
    rw [braced?_eq_none hunclosed]
    rfl
  agent answer failure herror := by
    unfold objectIn at herror
    split at herror
    · cases herror
    split at herror
    · cases herror
      exact ⟨_, rfl⟩
    split at herror
    · cases herror
    · cases herror
      exact ⟨_, rfl⟩

/-- An answer that begins with a character that begins no JSON is no value as a whole. -/
lemma read?_eq_none_of_head {c : Char} (hc : Json.ScanState.start c = none)
    (hanswer : answer.toList.head? = some c) : Json.read? answer = none := by
  obtain ⟨cs, hcs⟩ := List.head?_eq_some_iff.mp hanswer
  rw [Json.read?, Json.tokens?, hcs, Json.run_cons_eq, Json.ScanState.step, hc]
  rfl

/-! ## Objects in writing -/

/-- An object that is written has its own braces around it. -/
lemma isFramed_pretty (fields : List (String × Json)) (hbefore : '\x7b' ∉ before.toList)
    (hafter : '\x7d' ∉ after.toList) : IsFramed before (Json.object fields).pretty after := by
  have hchars : ∃ body, (Json.object fields).pretty.toList = '\x7b' :: (body ++ ['\x7d']) := by
    rw [Json.pretty, String.toList_ofList]
    cases fields with
    | nil => exact ⟨[], rfl⟩
    | cons field rest => exact ⟨Json.prettyFields 1 (field :: rest) ++ Json.newLine 0, rfl⟩
  obtain ⟨body, hbody⟩ := hchars
  refine ⟨hbefore, ?_, ?_, hafter⟩
  · rw [hbody]
    rfl
  · rw [hbody, ← List.cons_append, List.getLast?_concat]

/-- A value in writing is found with any text around it. -/
lemma objectIn_pretty {fields : List (String × Json)} {value : α}
    (hexact : Json.IsExact (.object fields)) (hvalue : decode? (.object fields) = some value)
    (hbefore : '\x7b' ∉ before.toList) (hafter : '\x7d' ∉ after.toList)
    (hwhole : (Json.read? (before ++ (Json.object fields).pretty ++ after)).bind decode? = none) :
    objectIn decode? (before ++ (Json.object fields).pretty ++ after) = .ok value := by
  refine (readsEmbedded decode?).embedded _ _ _ _ (isFramed_pretty fields hbefore hafter) ?_ hwhole
  have hblanks : Json.IsGap ("" : String).toList := by decide
  have hread := Json.read?_pretty hexact hblanks
  rw [String.append_empty] at hread
  rw [hread]
  exact hvalue

/-- The fields of an insight. -/
def Insight.fields (i : Insight) : List (String × Json) :=
  [("purpose", .text i.purpose), ("architecture", .text i.architecture),
    ("improvements", .texts i.improvements)]

lemma Insight.ofJson?_fields (i : Insight) : ofJson? (.object i.fields) = some i := by
  unfold ofJson? fields
  simp [Json.asFields?_object, Json.Fields.orElse?, List.lookup_cons, Json.asText?, Json.asTexts?_texts]

/-- The fields of a list of improvements. -/
def improvementFields (items : List String) : List (String × Json) :=
  [("improvements", .texts items)]

lemma improvementsOfJson?_fields (items : List String) :
    improvementsOfJson? (.object (improvementFields items)) = some items := by
  unfold improvementsOfJson? improvementFields
  simp [Json.asFields?_object, Json.Fields.orElse?, Json.asTexts?_texts]

/-- Both kinds of answers are read with text around them, whatever their texts hold: the object is cut
out of the bytes of the answer between characters. -/
theorem embedded_answers_read : ReadsEmbedded Insight.ofJson? ∧ ReadsEmbedded improvementsOfJson? ∧
    (∀ answer, Closes answer → ∃ object first last, braced? answer = some object ∧ first < last ∧
      IsSlice answer object first last) ∧
    (∀ (insight : Insight) (before after : String), '\x7b' ∉ before.toList → '\x7d' ∉ after.toList →
      (Json.read? (before ++ (Json.object insight.fields).pretty ++ after)).bind Insight.ofJson?
          = none →
        objectIn Insight.ofJson? (before ++ (Json.object insight.fields).pretty ++ after)
          = .ok insight) ∧
    (∀ (items : List String) (before after : String), '\x7b' ∉ before.toList →
      '\x7d' ∉ after.toList →
      (Json.read? (before ++ (Json.object (improvementFields items)).pretty ++ after)).bind
          improvementsOfJson? = none →
        objectIn improvementsOfJson?
          (before ++ (Json.object (improvementFields items)).pretty ++ after) = .ok items) := by
  refine ⟨readsEmbedded _, readsEmbedded _, fun answer hcloses => ?_, ?_, ?_⟩
  · obtain ⟨before, object, after, hframed, rfl⟩ := hcloses.exists_isFramed
    obtain ⟨first, last, hlt, hslice⟩ := hframed.exists_isSlice
    exact ⟨object, first, last, hframed.braced?_eq, hlt, hslice⟩
  · intro insight before after hbefore hafter
    have hexact : Json.IsExact (.object insight.fields) := by
      simp [Insight.fields, Json.IsExact, Json.HasExactFields, Json.isExact_texts]
    exact objectIn_pretty hexact insight.ofJson?_fields hbefore hafter
  · intro items before after hbefore hafter
    have hexact : Json.IsExact (.object (improvementFields items)) := by
      simp [improvementFields, Json.IsExact, Json.HasExactFields, Json.isExact_texts]
    exact objectIn_pretty hexact (improvementsOfJson?_fields items) hbefore hafter

/-- The text before an object, with characters of several bytes and a fence. -/
def fenceBefore : String := "Here you are – 日本:\n```json\n"

/-- The text behind an object, which opens a brace. -/
def fenceAfter : String := "\n```\nAsk again \x7b🙂"

/-- An object with braces, quotes and escapes in its texts. -/
def fencedObject : String :=
  "\x7b\"improvements\": [\"close \\u007d \x7d first\", \"say \\\"\x7b\\\\\"]\x7d"

/-- An insight with braces, quotes and escapes in its texts. -/
def fencedInsight : Insight :=
  ⟨"Routes \"\x7bid\x7d\" → handlers", "", ["\x7d\x7b", "two\nlines \\ 例"]⟩

lemma notMem_fence : '\x7b' ∉ fenceBefore.toList ∧ '\x7d' ∉ fenceAfter.toList := by
  rw [fenceBefore, fenceAfter, String.toList_ofList, String.toList_ofList]
  decide

lemma isFramed_fenced : IsFramed fenceBefore fencedObject fenceAfter := by
  have hends : fencedObject.toList.head? = some '\x7b' ∧
      fencedObject.toList.getLast? = some '\x7d' := by
    rw [fencedObject, String.toList_ofList]
    decide
  exact ⟨notMem_fence.1, hends.1, hends.2, notMem_fence.2⟩

lemma read?_fenced (object after : String) : Json.read? (fenceBefore ++ object ++ after) = none := by
  have hstart : Json.ScanState.start 'H' = none := by decide
  refine read?_eq_none_of_head hstart ?_
  rw [String.toList_append, String.toList_append, fenceBefore, String.toList_ofList]
  rfl

theorem embedded_answers_read_fenced :
    objectIn improvementsOfJson? (fenceBefore ++ fencedObject ++ fenceAfter) =
      .ok ["close \x7d \x7d first", "say \"\x7b\\"] ∧
    objectIn Insight.ofJson? (fenceBefore ++ (Json.object fencedInsight.fields).pretty ++ fenceAfter) =
      .ok fencedInsight ∧
    objectIn Insight.ofJson? "\x7d is no object \x7b" =
      .error (.agent "agent response is not a JSON object: \x7d is no object \x7b") ∧
    ∃ object first last, braced? (fenceBefore ++ fencedObject ++ fenceAfter) = some object ∧
      first < last ∧ IsSlice (fenceBefore ++ fencedObject ++ fenceAfter) object first last := by
  obtain ⟨hinsight, himprovements, hslice, hpretty, -⟩ := embedded_answers_read
  have hobject : (Json.read? fencedObject).bind improvementsOfJson? =
      some ["close \x7d \x7d first", "say \"\x7b\\"] := by
    rw [Json.read?, fencedObject, String.toList_ofList]
    decide +kernel
  have hunclosed : ¬Closes "\x7d is no object \x7b" := by
    rw [← braced?_eq_none_iff]
    decide +kernel
  refine ⟨?_, ?_, ?_, hslice _ isFramed_fenced.closes_append⟩
  · exact himprovements.embedded _ _ _ _ isFramed_fenced hobject (by rw [read?_fenced]; rfl)
  · exact hpretty fencedInsight _ _ notMem_fence.1 notMem_fence.2 (by rw [read?_fenced]; rfl)
  · exact hinsight.unbraced _ (by decide +kernel) hunclosed

/-- An answer that is a value as a whole is read as that, and not for the object in its text. -/
example : objectIn Insight.ofJson? "[\"\x7b\x7d\", \"x\"]" = .ok ⟨"\x7b\x7d", "x", []⟩ := by rfl

end DirectoryNotes
