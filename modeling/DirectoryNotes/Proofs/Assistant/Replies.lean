import DirectoryNotes.Directory.Analysis
import Mathlib.Data.List.TakeWhile
import Mathlib.Tactic.Lemma

/-!
# What replies come to

A reply counts for the words in its answer, and the replies on the files of a directory are those of
the files that were asked about:

* `wordsOf?_eq`: the words of a reply are what its answer says, if it is not blank;
* `getElem?_repliesInTurn`: a file is asked about while fewer than four before it are met with
  silence, and then its reply is its own;
* `Analyzer.getElem?_fileReplies`: the same for the files of a directory.
-/

namespace DirectoryNotes

/-! ## Words -/

/-- What a text says, without the blanks around it. A blank text says nothing. -/
def said? (words : String) : Option String :=
  if Text.isBlankText words then none else some (Text.trim words)

lemma trim_eq_empty_iff {words : String} : Text.trim words = "" ↔ Text.isBlankText words := by
  have hlist : ∀ s : List Char, Text.trimBy Text.isBlank s = [] ↔ s.all Text.isBlank := by
    intro s
    rw [Text.trimBy, Text.trimEndBy, List.reverse_eq_nil_iff, List.dropWhile_eq_nil_iff,
      List.all_eq_true]
    simp only [List.mem_reverse]
    constructor
    · intro h c hc
      rw [← List.takeWhile_append_dropWhile (p := Text.isBlank) (l := s)] at hc
      rcases List.mem_append.mp hc with hc | hc
      · exact List.mem_takeWhile_imp hc
      · exact h c hc
    · intro h c hc
      exact h c ((List.dropWhile_sublist _).subset hc)
  unfold Text.isBlankText
  rw [← hlist, Text.trim, ← String.toList_inj]
  simp

/-- The words of a reply are what its answer says. -/
lemma wordsOf?_eq (reply : Reply String) : wordsOf? reply = reply.value?.bind said? := by
  cases reply with
  | answer words =>
    simp only [wordsOf?, Reply.value?, Option.map_some, Option.bind_some, said?]
    by_cases hblank : Text.isBlankText words
    · rw [if_pos hblank, trim_eq_empty_iff.mpr hblank]
      rfl
    · rw [if_neg hblank]
      have hne : Text.trim words ≠ "" := mt trim_eq_empty_iff.mp hblank
      split
      · next heq => exact absurd (Option.some.inj heq) hne
      · next heq => cases heq
      · next heq => exact heq.symm ▸ rfl
  | failure reason => rfl
  | silence => rfl

lemma wordsOf?_eq_some_iff {reply : Reply String} {w : String} :
    wordsOf? reply = some w ↔ ∃ text, reply = .answer text ∧ said? text = some w := by
  rw [wordsOf?_eq]
  cases reply <;> simp [Reply.value?]

/-! ## Replies in turn -/

section
variable {α : Type} {calls : List (Option (Reply α))} {i : Nat} {reply : Reply α}

/-- A question that is never answered. -/
def isSilent : Option (Reply α) → Bool
  | some .silence => true
  | _ => false

/-- How many of the files before one are met with silence when they are asked about. -/
def silentBefore (calls : List (Option (Reply α))) (i : Nat) : Nat := (calls.take i).countP isSilent

lemma silentBefore_zero (calls : List (Option (Reply α))) : silentBefore calls 0 = 0 := rfl

lemma silentBefore_cons (call : Option (Reply α)) :
    silentBefore (call :: calls) (i + 1) = silentBefore calls i + if isSilent call then 1 else 0 := by
  unfold silentBefore
  rw [List.take_succ_cons, List.countP_cons]

lemma length_repliesInTurn (held : Nat) (calls : List (Option (Reply α))) :
    (repliesInTurn held calls).length = calls.length := by
  fun_induction repliesInTurn held calls <;> simp_all

/-- Whose reply is there: that of a file with a question while silence has not taken all places. -/
theorem getElem?_repliesInTurn (held : Nat) :
    (repliesInTurn held calls)[i]? = some (some reply) ↔
      calls[i]? = some (some reply) ∧ held + silentBefore calls i < questionLimit := by
  -- a silent file counts among those held for all that come after it
  fun_induction repliesInTurn held calls generalizing i with
  | case1 => simp
  | case2 held rest ih =>
    cases i with
    | zero => simp
    | succ i => simpa [silentBefore_cons, isSilent] using ih
  | case3 held first rest hfull ih =>
    cases i with
    | zero => simp [silentBefore_zero, hfull]
    | succ i =>
      simp only [List.getElem?_cons_succ, silentBefore_cons, ih]
      -- all places are held, so nobody is asked about any more
      constructor
      · rintro ⟨-, hlt⟩
        omega
      · rintro ⟨-, hlt⟩
        omega
  | case4 held rest hfree ih =>
    cases i with
    | zero => simpa [silentBefore_zero] using fun _ => Nat.not_le.mp hfree
    | succ i =>
      simp only [List.getElem?_cons_succ, silentBefore_cons, isSilent, if_true, ih]
      rw [Nat.add_right_comm, Nat.add_assoc]
  | case5 held rest hfree first hanswer ih =>
    cases i with
    | zero => simpa [silentBefore_zero] using fun _ => Nat.not_le.mp hfree
    | succ i =>
      have hsilent : isSilent (some first) = false := by
        cases first with
        | silence => exact absurd rfl hanswer
        | answer => rfl
        | failure => rfl
      simpa [silentBefore_cons, hsilent] using ih

end

/-! ## The files of a directory -/

namespace Analyzer

variable {assistant : Assistant} {files : List InspectedFile} {i : Nat} {reply : Reply String}

/-- The files of a directory, given by the replies to their questions. -/
def fileCalls (assistant : Assistant) (files : List InspectedFile) :
    List (Option (Reply String)) :=
  files.map fun file => file.source?.map fun (text, facts) =>
    assistant.describeFile file.path text facts

lemma getElem?_fileCalls : (fileCalls assistant files)[i]? = some (some reply) ↔
      ∃ file text facts, files[i]? = some file ∧ file.source? = some (text, facts) ∧
        assistant.describeFile file.path text facts = reply := by
  simp [fileCalls, List.getElem?_map, Option.map_eq_some_iff, Prod.exists]

lemma exists_fileCalls :
    (∃ reply, (fileCalls assistant files)[i]? = some (some reply)) ↔
      ∃ file, files[i]? = some file ∧ file.source?.isSome := by
  simp only [getElem?_fileCalls, Option.isSome_iff_exists, Prod.exists]
  constructor
  · rintro ⟨_, file, text, facts, hfile, hsource, rfl⟩
    exact ⟨file, hfile, text, facts, hsource⟩
  · rintro ⟨file, hfile, text, facts, hsource⟩
    exact ⟨_, file, text, facts, hfile, hsource, rfl⟩

/-- A reply on a file is the one to its own question. -/
theorem getElem?_fileReplies : (fileReplies assistant files)[i]? = some (some reply) ↔
    (∃ file text facts, files[i]? = some file ∧ file.source? = some (text, facts) ∧
      assistant.describeFile file.path text facts = reply) ∧
    silentBefore (fileCalls assistant files) i < questionLimit := by
  unfold fileReplies
  rw [← fileCalls, getElem?_repliesInTurn, getElem?_fileCalls, Nat.zero_add]

lemma length_fileReplies : (fileReplies assistant files).length = files.length := by
  unfold fileReplies
  rw [length_repliesInTurn, List.length_map]

end Analyzer

end DirectoryNotes
