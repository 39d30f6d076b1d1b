import DirectoryNotes.Proofs.Assistant.Replies

/-!
# Questions in turn

The files of a directory are asked about a few at a time. A question is put when a place is free, in
the order of the files, and the answers come in any order. What is kept for a file is its own answer
all the same, and which files are asked about does not hang on the order of the answers:

* `Turns.Step`: a question is put, or one that waits for its answer gets it;
* `Turns.Holds`: what is true after any steps, as `Run.holds` says;
* `started_iff`, `words_eq`: what is true when no step is left, whatever the order was;
* `answers_kept_apart`: both for the files of a directory.
-/

namespace DirectoryNotes

open Analyzer

namespace Turns

/-! ## Steps -/

/-- The files still to be asked about, those whose question waits for its answer, and what is kept for
each file. -/
structure State where
  waiting : List Nat
  inFlight : List Nat
  words : List (Option String)

/-- Something that happens while the questions are put. -/
inductive Event where
  | start (i : Nat)
  | finish (i : Nat) (result : Except Failure String)

/-- Keeps what an answer says for a file. -/
def keep (words : List (Option String)) (i : Nat) : Except Failure String → List (Option String)
  | .error _ => words
  | .ok text =>
    match said? text with
    | none => words
    | some said => words.set i (some said)

/-- What can happen next. The files are given by the replies to their questions, and a question that
is met with silence never gets an answer. -/
inductive Step (calls : List (Option (Reply String))) : State → Event → State → Prop
  | start {i : Nat} {rest inFlight : List Nat} {words : List (Option String)} :
      inFlight.length < questionLimit →
      Step calls ⟨i :: rest, inFlight, words⟩ (.start i) ⟨rest, inFlight ++ [i], words⟩
  | finish {i : Nat} {waiting inFlight : List Nat} {words : List (Option String)}
      {result : Except Failure String} :
      i ∈ inFlight → calls[i]? = some (some (.ofExcept result)) →
      Step calls ⟨waiting, inFlight, words⟩ (.finish i result)
        ⟨waiting, inFlight.erase i, keep words i result⟩

/-- Steps one after the other. -/
inductive Run (calls : List (Option (Reply String))) (s : State) : List Event → State → Prop
  | nil : Run calls s [] s
  | snoc {trace : List Event} {s' s'' : State} {e : Event} :
      Run calls s trace s' → Step calls s' e s'' → Run calls s (trace ++ [e]) s''

/-- No step is left: every answer that comes has come, and every question that can be put was. -/
def Stuck (calls : List (Option (Reply String))) (s : State) : Prop := ∀ e s', ¬Step calls s e s'

/-- The files to ask about, in their order. -/
def toAsk (calls : List (Option (Reply String))) : List Nat :=
  (List.range calls.length).filter fun i => (calls[i]?.bind id).isSome

/-- Before the first question. -/
def initial (calls : List (Option (Reply String))) : State :=
  ⟨toAsk calls, [], calls.map fun _ => none⟩

/-- The files that were asked about. -/
def started (trace : List Event) : List Nat :=
  trace.filterMap fun
    | .start i => some i
    | .finish .. => none

variable {calls : List (Option (Reply String))} {trace : List Event} {s s' : State} {i j : Nat}

lemma started_concat_start : started (trace ++ [.start i]) = started trace ++ [i] := by
  simp [started]

lemma started_concat_finish {result : Except Failure String} :
    started (trace ++ [.finish i result]) = started trace := by
  simp [started]

lemma mem_toAsk_iff : i ∈ toAsk calls ↔ ∃ reply, calls[i]? = some (some reply) := by
  unfold toAsk
  rw [List.mem_filter, List.mem_range, Option.isSome_iff_exists]
  constructor
  · rintro ⟨-, reply, hreply⟩
    obtain ⟨call, hcall, rfl⟩ := Option.bind_eq_some_iff.mp hreply
    exact ⟨reply, hcall⟩
  · rintro ⟨reply, hreply⟩
    exact ⟨(List.getElem?_eq_some_iff.mp hreply).1, reply, by rw [hreply]; rfl⟩

lemma pairwise_toAsk (calls : List (Option (Reply String))) : (toAsk calls).Pairwise (· < ·) :=
  List.pairwise_lt_range.filter _

/-! ## Silence -/

/-- Whether a file is met with silence. -/
def silentAt (calls : List (Option (Reply String))) (i : Nat) : Bool := calls[i]?.any isSilent

lemma silentAt_iff : silentAt calls i = true ↔ calls[i]? = some (some .silence) := by
  unfold silentAt
  cases calls[i]? with
  | none => simp
  | some call =>
    cases call with
    | none => simp [isSilent]
    | some reply => cases reply <;> simp [isSilent]

lemma silentBefore_eq (calls : List (Option (Reply String))) (i : Nat) :
    silentBefore calls i = ((List.range i).filter (silentAt calls)).length := by
  induction i with
  | zero => rfl
  | succ i ih =>
    unfold silentBefore at ih
    rw [silentBefore, List.take_add_one, List.countP_append, ih, List.range_succ,
      List.filter_append, List.length_append]
    cases h : calls[i]? with
    | none => simp [silentAt, h]
    | some call => cases hcall : isSilent call <;> simp [silentAt, h, hcall]

/-! ## What is kept -/

lemma length_keep (words : List (Option String)) (i : Nat) (result : Except Failure String) :
    (keep words i result).length = words.length := by
  cases result with
  | error reason => rfl
  | ok text =>
    rw [keep]
    split
    · rfl
    · exact List.length_set

/-- Something is kept for a file if it was before, or if the answer to its own question says it. -/
lemma getElem?_keep {words : List (Option String)} {result : Except Failure String} {w : String}
    (hi : i < words.length) (hnone : ∀ w, words[i]? ≠ some (some w)) :
    (keep words i result)[j]? = some (some w) ↔
      words[j]? = some (some w) ∨ j = i ∧ ∃ text, result = .ok text ∧ said? text = some w := by
  cases result with
  | error reason => simp [keep]
  | ok text =>
    rw [keep]
    cases hsaid : said? text with
    | none => simp [hsaid]
    | some said =>
      by_cases hj : j = i
      · subst hj
        simp [List.getElem?_set_self hi, hnone w, hsaid]
      · simp [List.getElem?_set_ne (Ne.symm hj), hj]

/-! ## After any steps -/

/-- What is true after any steps. -/
structure Holds (calls : List (Option (Reply String))) (trace : List Event) (s : State) : Prop where
  order : started trace ++ s.waiting = toAsk calls
  limit : s.inFlight.length ≤ questionLimit
  nodup : s.inFlight.Nodup
  inFlight : ∀ i ∈ s.inFlight, i ∈ started trace
  /-- Silence keeps its place. -/
  silent : ∀ i ∈ started trace, silentAt calls i = true → i ∈ s.inFlight
  /-- When a file was asked about, silence had not taken all places. -/
  early : ∀ i ∈ started trace, silentBefore calls i < questionLimit
  length : s.words.length = calls.length
  /-- What is kept for a file is what the answer to its own question says, once it came. -/
  words : ∀ i w, s.words[i]? = some (some w) ↔ i ∈ started trace ∧ i ∉ s.inFlight ∧
    ∃ text, calls[i]? = some (some (.answer text)) ∧ said? text = some w
  answered : ∀ i w, s.words[i]? = some (some w) →
    ∃ text, Event.finish i (.ok text) ∈ trace ∧ calls[i]? = some (some (.answer text)) ∧
      said? text = some w
  steps : trace.length + 2 * s.waiting.length + s.inFlight.length = 2 * (toAsk calls).length

lemma Holds.pairwise (h : Holds calls trace s) :
    (started trace ++ s.waiting).Pairwise (· < ·) := h.order ▸ pairwise_toAsk calls

/-- Nothing is kept before the first question. -/
lemma words_initial (i : Nat) (w : String) : (initial calls).words[i]? ≠ some (some w) := by
  unfold initial
  rw [List.getElem?_map]
  cases calls[i]? with
  | none => exact fun h => nomatch h
  | some call => exact fun h => nomatch h

lemma Holds.initial (calls : List (Option (Reply String))) : Holds calls [] (initial calls) where
  order := rfl
  limit := Nat.zero_le _
  nodup := .nil
  inFlight i hi := by cases hi
  silent i hi := by cases hi
  early i hi := by cases hi
  length := List.length_map ..
  words i w := by
    constructor
    · exact fun h => absurd h (words_initial i w)
    · rintro ⟨hi, -⟩
      cases hi
  answered i w h := absurd h (words_initial i w)
  steps := by simp [Turns.initial]

/-- Silent files before the next one have been asked about and hold their places. -/
lemma Holds.silentBefore_le {rest : List Nat} (h : Holds calls trace s)
    (hwaiting : s.waiting = i :: rest) : silentBefore calls i ≤ s.inFlight.length := by
  rw [silentBefore_eq]
  refine List.Nodup.length_le_of_subset (List.nodup_range.filter _) fun j hj => ?_
  obtain ⟨hlt, hsilent⟩ := List.mem_filter.mp hj
  have hmem : j ∈ started trace ++ s.waiting := by
    rw [h.order]
    exact mem_toAsk_iff.mpr ⟨_, silentAt_iff.mp hsilent⟩
  refine h.silent j ((List.mem_append.mp hmem).resolve_right fun hlater => ?_) hsilent
  -- what still waits does not stand before the next one
  have hsorted := (List.pairwise_append.mp h.pairwise).2.1
  rw [hwaiting] at hsorted hlater
  have hlt : j < i := List.mem_range.mp hlt
  rcases List.mem_cons.mp hlater with rfl | hlater
  · exact Nat.lt_irrefl j hlt
  · exact Nat.lt_asymm hlt ((List.pairwise_cons.mp hsorted).1 j hlater)

/-- Putting the next question keeps all of it. -/
lemma Holds.start {rest inFlight : List Nat} {words : List (Option String)}
    (h : Holds calls trace ⟨i :: rest, inFlight, words⟩) (hfree : inFlight.length < questionLimit) :
    Holds calls (trace ++ [.start i]) ⟨rest, inFlight ++ [i], words⟩ := by
  -- the next one comes after all that were asked about, so it is new
  have hbefore : ∀ j ∈ started trace, j < i := fun j hj =>
    (List.pairwise_append.mp h.pairwise).2.2 j hj i (by simp)
  have hnew : i ∉ started trace := fun hi => Nat.lt_irrefl i (hbefore i hi)
  constructor
  case order =>
    rw [started_concat_start]
    simpa using h.order
  case limit => simpa using Nat.succ_le_of_lt hfree
  case nodup =>
    refine List.nodup_append.mpr ⟨h.nodup, by simp, fun a ha b hb => ?_⟩
    rintro rfl
    exact hnew (List.mem_singleton.mp hb ▸ h.inFlight a ha)
  case inFlight =>
    intro j hj
    rw [started_concat_start]
    rcases List.mem_append.mp hj with hj | hj
    · exact List.mem_append_left _ (h.inFlight j hj)
    · exact List.mem_append_right _ hj
  case silent =>
    intro j hj hsilent
    rw [started_concat_start] at hj
    rcases List.mem_append.mp hj with hj | hj
    · exact List.mem_append_left _ (h.silent j hj hsilent)
    · exact List.mem_append_right _ hj
  case early =>
    intro j hj
    rw [started_concat_start] at hj
    rcases List.mem_append.mp hj with hj | hj
    · exact h.early j hj
    · obtain rfl := List.mem_singleton.mp hj
      exact Nat.lt_of_le_of_lt (h.silentBefore_le rfl) hfree
  case length => exact h.length
  case words =>
    -- the new one waits for its answer, so nothing is kept for it yet
    intro j w
    rw [h.words j w, started_concat_start]
    constructor
    · rintro ⟨hj, hnot, htext⟩
      refine ⟨List.mem_append_left _ hj, fun hin => ?_, htext⟩
      rcases List.mem_append.mp hin with hin | hin
      · exact hnot hin
      · exact hnew (List.mem_singleton.mp hin ▸ hj)
    · rintro ⟨hj, hnot, htext⟩
      refine ⟨(List.mem_append.mp hj).resolve_right fun hlast => hnot ?_, fun hin => hnot ?_, htext⟩
      · exact List.mem_append_right _ hlast
      · exact List.mem_append_left _ hin
  case answered =>
    intro j w hj
    obtain ⟨text, hmem, hanswer⟩ := h.answered j w hj
    exact ⟨text, List.mem_append_left _ hmem, hanswer⟩
  case steps =>
    have hsteps := h.steps
    simp only [List.length_cons, List.length_append, List.length_nil] at hsteps ⊢
    omega

/-- An answer that comes in keeps all of it. -/
lemma Holds.finish {result : Except Failure String} (h : Holds calls trace s) (hi : i ∈ s.inFlight)
    (hcall : calls[i]? = some (some (.ofExcept result))) :
    Holds calls (trace ++ [.finish i result])
      ⟨s.waiting, s.inFlight.erase i, keep s.words i result⟩ := by
  have hlt : i < s.words.length := h.length ▸ (List.getElem?_eq_some_iff.mp hcall).1
  -- it waited until now, so nothing was kept for it
  have hnone : ∀ w, s.words[i]? ≠ some (some w) := fun w hw => ((h.words i w).mp hw).2.1 hi
  have hloud : silentAt calls i = false := by
    unfold silentAt
    rw [hcall]
    cases result <;> rfl
  constructor
  case order => rw [started_concat_finish, h.order]
  case limit => exact Nat.le_trans List.length_erase_le h.limit
  case nodup => exact h.nodup.erase i
  case inFlight =>
    intro j hj
    rw [started_concat_finish]
    exact h.inFlight j (List.mem_of_mem_erase hj)
  case silent =>
    intro j hj hsilent
    rw [started_concat_finish] at hj
    refine h.nodup.mem_erase_iff.mpr ⟨?_, h.silent j hj hsilent⟩
    rintro rfl
    rw [hloud] at hsilent
    cases hsilent
  case early =>
    intro j hj
    rw [started_concat_finish] at hj
    exact h.early j hj
  case length => rw [length_keep, h.length]
  case words =>
    intro j w
    rw [getElem?_keep hlt hnone, h.words j w, started_concat_finish, h.nodup.mem_erase_iff]
    by_cases hj : j = i
    · subst hj
      cases result with
      | error reason => simp [hcall, Reply.ofExcept]
      | ok text => simp [hcall, Reply.ofExcept, h.inFlight j hi]
    · simp [hj]
  case answered =>
    intro j w hj
    rcases (getElem?_keep hlt hnone).mp hj with hold | ⟨rfl, text, rfl, hsaid⟩
    · obtain ⟨text, hmem, hanswer⟩ := h.answered j w hold
      exact ⟨text, List.mem_append_left _ hmem, hanswer⟩
    · exact ⟨text, by simp, hcall, hsaid⟩
  case steps =>
    have hsteps := h.steps
    have hpos := List.length_pos_of_mem hi
    simp only [List.length_append, List.length_cons, List.length_nil, List.length_erase_of_mem hi]
    omega

/-- A step keeps all of it. -/
theorem Holds.step {e : Event} (h : Holds calls trace s) (hstep : Step calls s e s') :
    Holds calls (trace ++ [e]) s' := by
  cases hstep with
  | start hfree => exact h.start hfree
  | finish hi hcall => exact h.finish hi hcall

theorem Run.holds (h : Run calls (initial calls) trace s) : Holds calls trace s := by
  induction h with
  | nil => exact .initial calls
  | snoc _ hstep ih => exact ih.step hstep

/-- Steps can be taken until none is left. -/
theorem Run.exists_stuck (h : Run calls (initial calls) trace s) :
    ∃ more s', Run calls (initial calls) (trace ++ more) s' ∧ Stuck calls s' := by
  -- a file takes two steps at most, so the steps that are left can be counted
  generalize hleft : 2 * (toAsk calls).length - trace.length = left
  induction left using Nat.strongRecOn generalizing trace s with
  | ind left ih =>
    by_cases hstuck : Stuck calls s
    · exact ⟨[], s, by simpa using h, hstuck⟩
    · simp only [Stuck, not_forall, not_not] at hstuck
      obtain ⟨e, s', hstep⟩ := hstuck
      have hnext := h.snoc hstep
      have hsteps := hnext.holds.steps
      simp only [List.length_append, List.length_cons, List.length_nil] at hsteps
      obtain ⟨more, last, hrun, hlast⟩ := ih _ (by subst hleft; simp; omega) hnext rfl
      exact ⟨e :: more, last, by simpa using hrun, hlast⟩

/-! ## When no step is left -/

lemma Stuck.silent (hstuck : Stuck calls s) (h : Holds calls trace s) :
    ∀ i ∈ s.inFlight, silentAt calls i = true := by
  intro i hi
  have hasked : i ∈ toAsk calls := h.order ▸ List.mem_append_left _ (h.inFlight i hi)
  obtain ⟨reply, hreply⟩ := mem_toAsk_iff.mp hasked
  -- one that answers or fails could still do so
  cases reply with
  | silence => exact silentAt_iff.mpr hreply
  | answer text => exact absurd (Step.finish hi hreply) (hstuck (.finish i (.ok text)) _)
  | failure reason => exact absurd (Step.finish hi hreply) (hstuck (.finish i (.error reason)) _)

lemma Stuck.full (hstuck : Stuck calls s) (hwaiting : s.waiting ≠ []) :
    questionLimit ≤ s.inFlight.length := by
  obtain ⟨waiting, inFlight, words⟩ := s
  cases waiting with
  | nil => exact absurd rfl hwaiting
  | cons i rest => exact Nat.not_lt.mp fun hfree => hstuck _ _ (.start hfree)

/-- The files that were asked about are those before which silence had not taken all places. -/
theorem started_iff (h : Holds calls trace s) (hstuck : Stuck calls s) :
    i ∈ started trace ↔
      (∃ reply, calls[i]? = some (some reply)) ∧ silentBefore calls i < questionLimit := by
  constructor
  · intro hi
    exact ⟨mem_toAsk_iff.mp (h.order ▸ List.mem_append_left _ hi), h.early i hi⟩
  · rintro ⟨hreply, hlt⟩
    have hmem := mem_toAsk_iff.mpr hreply
    rw [← h.order] at hmem
    refine (List.mem_append.mp hmem).resolve_right fun hwaits => ?_
    have hfull := hstuck.full (List.ne_nil_of_mem hwaits)
    -- all that are in flight are silent and stand before a file that still waits
    have hle : s.inFlight.length ≤ silentBefore calls i := by
      rw [silentBefore_eq]
      refine List.Nodup.length_le_of_subset h.nodup fun j hj => ?_
      have hlt := (List.pairwise_append.mp h.pairwise).2.2 j (h.inFlight j hj) i hwaits
      exact List.mem_filter.mpr ⟨List.mem_range.mpr hlt, hstuck.silent h j hj⟩
    omega

lemma words_iff (h : Holds calls trace s) (hstuck : Stuck calls s) {w : String} :
    s.words[i]? = some (some w) ↔ i ∈ started trace ∧
      ∃ text, calls[i]? = some (some (.answer text)) ∧ said? text = some w := by
  rw [h.words i w]
  constructor
  · rintro ⟨hi, -, htext⟩
    exact ⟨hi, htext⟩
  · rintro ⟨hi, text, hcall, hsaid⟩
    refine ⟨hi, fun hin => ?_, text, hcall, hsaid⟩
    have hsilent := silentAt_iff.mp (hstuck.silent h i hin)
    simp [hcall] at hsilent

/-- What is kept in the end does not hang on the order in which the answers came. -/
theorem words_eq (h : Holds calls trace s) (hstuck : Stuck calls s) :
    s.words = (repliesInTurn 0 calls).map fun reply => reply.bind wordsOf? := by
  have hlength : s.words.length = (repliesInTurn 0 calls).length := by
    rw [h.length, length_repliesInTurn]
  refine List.ext_getElem (by simpa using hlength) fun i hi hi' => ?_
  have hi' : i < (repliesInTurn 0 calls).length := by simpa using hi'
  rw [List.getElem_map]
  ext w
  have hwords := words_iff (i := i) (w := w) h hstuck
  rw [List.getElem?_eq_getElem hi, Option.some.injEq, started_iff h hstuck] at hwords
  rw [hwords, Option.bind_eq_some_iff]
  have hreply : ∀ reply, (repliesInTurn 0 calls)[i] = some reply ↔
      calls[i]? = some (some reply) ∧ silentBefore calls i < questionLimit := by
    intro reply
    rw [← Option.some.injEq, ← List.getElem?_eq_getElem hi', getElem?_repliesInTurn, Nat.zero_add]
  simp only [hreply, wordsOf?_eq_some_iff]
  constructor
  · rintro ⟨⟨-, hlt⟩, text, hcall, hsaid⟩
    exact ⟨_, ⟨hcall, hlt⟩, text, rfl, hsaid⟩
  · rintro ⟨_, ⟨hcall, hlt⟩, text, rfl, hsaid⟩
    exact ⟨⟨⟨_, hcall⟩, hlt⟩, text, hcall, hsaid⟩

/-! ## The files of a directory -/

/-- Whatever the order of the answers: no more questions wait than may, they are put in the order of
the files and never twice or about a file without source, and what is kept for a file is its own
answer. When no step is left, a file was asked about unless silence held all places before it, its
answer is kept, and the outcome is the one of `Analyzer.fileReplies`. -/
theorem answers_kept_apart (assistant : Assistant) (files : List InspectedFile) :
    let calls := fileCalls assistant files
    (∀ trace s, Run calls (initial calls) trace s →
      s.inFlight.length ≤ questionLimit ∧
      started trace <+: toAsk calls ∧
      (started trace).Pairwise (· < ·) ∧
      (∀ i ∈ started trace, ∃ file, files[i]? = some file ∧ file.source?.isSome) ∧
      (∀ i w, s.words[i]? = some (some w) → i ∈ started trace ∧
        ∃ file text facts answer, files[i]? = some file ∧ file.source? = some (text, facts) ∧
          assistant.describeFile file.path text facts = .answer answer ∧
          Event.finish i (.ok answer) ∈ trace ∧ said? answer = some w) ∧
      ∃ more last, Run calls (initial calls) (trace ++ more) last ∧ Stuck calls last) ∧
    ∀ trace s, Run calls (initial calls) trace s → Stuck calls s →
      (∀ i, i ∈ started trace ↔
        (∃ file, files[i]? = some file ∧ file.source?.isSome) ∧
          silentBefore calls i < questionLimit) ∧
      (∀ i w, s.words[i]? = some (some w) ↔ i ∈ started trace ∧
        ∃ file text facts answer, files[i]? = some file ∧ file.source? = some (text, facts) ∧
          assistant.describeFile file.path text facts = .answer answer ∧ said? answer = some w) ∧
      s.words = (fileReplies assistant files).map fun reply => reply.bind wordsOf? := by
  intro calls
  constructor
  · intro trace s hrun
    have h := hrun.holds
    refine ⟨h.limit, ⟨_, h.order⟩, (List.pairwise_append.mp h.pairwise).1, fun i hi => ?_,
      fun i w hw => ?_, hrun.exists_stuck⟩
    · exact exists_fileCalls.mp (mem_toAsk_iff.mp (h.order ▸ List.mem_append_left _ hi))
    · obtain ⟨answer, hmem, hcall, hsaid⟩ := h.answered i w hw
      obtain ⟨file, text, facts, hfile, hsource, hreply⟩ := getElem?_fileCalls.mp hcall
      exact ⟨((h.words i w).mp hw).1, file, text, facts, answer, hfile, hsource, hreply, hmem, hsaid⟩
  · intro trace s hrun hstuck
    have h := hrun.holds
    refine ⟨fun i => (started_iff h hstuck).trans (and_congr_left' exists_fileCalls),
      fun i w => (words_iff h hstuck).trans (and_congr_right' ?_), words_eq h hstuck⟩
    constructor
    · rintro ⟨answer, hcall, hsaid⟩
      obtain ⟨file, text, facts, hfile, hsource, hreply⟩ := getElem?_fileCalls.mp hcall
      exact ⟨file, text, facts, answer, hfile, hsource, hreply, hsaid⟩
    · rintro ⟨file, text, facts, answer, hfile, hsource, hreply, hsaid⟩
      exact ⟨answer, getElem?_fileCalls.mpr ⟨file, text, facts, hfile, hsource, hreply⟩, hsaid⟩

end Turns

end DirectoryNotes
