import DirectoryNotes.Agent.Questions
import DirectoryNotes.Proofs.Assistant.Replies
import DirectoryNotes.Proofs.Text.Trimming

/-!
# Descriptions of files

A file is described by one line of what the agent answers:

* `not_blank_of_replyText`: the text of a reply says something;
* `firstLine?_eq_some_iff`: the line that counts is the first that says something, without the blanks
  around it and then without the quotes around it;
* `IsQuoted.isUsable_iff`: a line without its quotes can be shown unless taking them off spoils it;
* `describeFile_usable`: what comes of asking about a file.
-/

namespace DirectoryNotes

open Text

/-! ## What the agent answers -/

section
variable {answer line text : String}

/-- Each item of a list that is taken comes of a value. -/
lemma exists_of_mem_mapM {α β : Type} {f : α → Option β} {xs : List α} {ys : List β} {y : β}
    (h : xs.mapM f = some ys) (hy : y ∈ ys) : ∃ x ∈ xs, f x = some y := by
  induction xs generalizing ys with
  | nil =>
    obtain rfl : ys = [] := by simpa using h.symm
    cases hy
  | cons x xs ih =>
    rw [List.mapM_cons] at h
    simp only [bind, Option.bind_eq_some_iff, pure, Option.some.injEq] at h
    obtain ⟨z, hz, zs, hzs, rfl⟩ := h
    rcases List.mem_cons.mp hy with rfl | hy
    · exact ⟨x, List.mem_cons_self, hz⟩
    · obtain ⟨w, hw, hwy⟩ := ih hzs hy
      exact ⟨w, List.mem_cons_of_mem _ hw, hwy⟩

lemma not_blank_of_trim_ne {s : String} (h : trim s ≠ "") : isBlankText (trim s) = false := by
  rw [← Bool.not_eq_true, ← trim_eq_empty_iff]
  have htwice : trim (trim s) = trim s := by
    rw [trim, trim, String.toList_ofList, trimBy_trimBy]
  rwa [htwice]

/-- The text of a message says something, unless it is empty. -/
lemma not_blank_of_contentText {j : Json} (h : contentText? j = some text) (hne : text ≠ "") :
    isBlankText text = false := by
  unfold contentText? at h
  obtain ⟨-, h⟩ := Option.ite_none_right_eq_some.mp h
  split at h
  · obtain rfl := Option.some.inj h
    exact not_blank_of_trim_ne hne
  · obtain ⟨parts, hparts, rfl⟩ := Option.map_eq_some_iff.mp h
    unfold partTexts? at hparts
    simp only [bind, Option.bind_eq_some_iff, pure, Option.some.injEq] at hparts
    obtain ⟨given, -, rfl⟩ := hparts
    -- the first part that is kept says something
    cases hkept : ((given.filterMap id).map trim).filter (· ≠ "") with
    | nil => exact absurd (by rw [hkept]; rfl) hne
    | cons part rest =>
      have hpart : part ∈ ((given.filterMap id).map trim).filter (· ≠ "") := by
        rw [hkept]
        exact List.mem_cons_self
      obtain ⟨hmem, hpart⟩ := List.mem_filter.mp hpart
      obtain ⟨raw, -, rfl⟩ := List.mem_map.mp hmem
      have hspeaks := not_blank_of_trim_ne (of_decide_eq_true hpart)
      have hfront : (trim raw).toList <+: (join "\n" (trim raw :: rest)).toList := by
        rw [join, String.toList_intercalate]
        cases rest with
        | nil => simp
        | cons next more =>
          rw [List.map_cons, List.map_cons, List.intercalate_cons_cons, List.append_assoc]
          exact List.prefix_append _ _
      rw [isBlankText, List.all_eq_false] at hspeaks ⊢
      obtain ⟨c, hc, hblank⟩ := hspeaks
      exact ⟨c, hfront.subset hc, hblank⟩

/-- The text of a choice is the text of its message. -/
lemma exists_content_of_mem_choiceTexts {j : Json} {texts : List String}
    (h : choiceTexts? j = some texts) (ht : text ∈ texts) :
    ∃ content, contentText? content = some text := by
  unfold choiceTexts? at h
  simp only [bind, Option.bind_eq_some_iff] at h
  obtain ⟨fields, -, h⟩ := h
  unfold Json.Fields.orElse? at h
  split at h
  · unfold Json.asList? at h
    split at h
    · obtain ⟨choice, -, hchoice⟩ := exists_of_mem_mapM h ht
      unfold Json.Fields.need? at hchoice
      simp only [bind, Option.bind_eq_some_iff] at hchoice
      obtain ⟨_, -, _, -, _, -, _, -, _, -, content, -, hcontent⟩ := hchoice
      exact ⟨content, hcontent⟩
    · cases h
  · obtain rfl := Option.some.inj h
    cases ht

/-- A reply that brings a text brings one that says something. -/
lemma not_blank_of_bodyText {body : String} (h : bodyText body = .ok text) :
    isBlankText text = false := by
  unfold bodyText at h
  split at h
  · cases h
  · cases h
  · cases h
  · next first _ hne htexts =>
    obtain rfl := Except.ok.inj h
    obtain ⟨j, -, hj⟩ := Option.bind_eq_some_iff.mp htexts
    obtain ⟨content, hcontent⟩ := exists_content_of_mem_choiceTexts hj List.mem_cons_self
    exact not_blank_of_contentText hcontent hne

lemma not_blank_of_replyText {s : AgentSettings} {exchange : Exchange}
    (h : replyText s exchange = .ok text) : isBlankText text = false := by
  unfold replyText at h
  split at h
  · cases h
  · cases h
  · cases h
  · split at h
    · exact not_blank_of_bodyText h
    · cases h

lemma replyText_reply {s : AgentSettings} {status : Nat} {body : String}
    (h : HttpStatus.isSuccess status = true) : replyText s (.reply status body) = bodyText body :=
  if_pos h

/-- All that can go wrong is that the agent gives no text. -/
lemma exists_reason_of_replyText {s : AgentSettings} {exchange : Exchange} {f : Failure}
    (h : replyText s exchange = .error f) : ∃ reason, f = .agent reason := by
  unfold replyText bodyText at h
  grind

/-! ## The line that counts -/

/-- The first line of an answer that says something, without the blanks around it. -/
def IsOpening (answer line : String) : Prop :=
  ∃ before given after, linesOf answer = before ++ given :: after ∧
    (∀ blank ∈ before, isBlankText blank = true) ∧ isBlankText given = false ∧ line = trim given

lemma isOpening_iff :
    IsOpening answer line ↔ ((linesOf answer).map trim).find? (· ≠ "") = some line := by
  have hspeaks : ∀ {s : String}, trim s ≠ "" ↔ isBlankText s = false := by
    intro s
    rw [Ne, trim_eq_empty_iff, Bool.not_eq_true]
  rw [List.find?_eq_some_iff_append, decide_eq_true_eq]
  constructor
  · rintro ⟨before, given, after, hsplit, hbefore, hgiven, rfl⟩
    refine ⟨hspeaks.mpr hgiven, before.map trim, after.map trim, ?_, ?_⟩
    · rw [hsplit, List.map_append, List.map_cons]
    · intro line hline
      obtain ⟨blank, hblank, rfl⟩ := List.mem_map.mp hline
      simpa [trim_eq_empty_iff] using hbefore blank hblank
  · rintro ⟨hline, front, back, hlines, hfront⟩
    obtain ⟨before, rest, hsplit, rfl, hrest⟩ := List.map_eq_append_iff.mp hlines
    obtain ⟨given, after, rfl, rfl, rfl⟩ := List.map_eq_cons_iff.mp hrest
    refine ⟨before, given, after, hsplit, fun blank hblank => ?_, hspeaks.mp hline, rfl⟩
    simpa [trim_eq_empty_iff] using hfront _ (List.mem_map_of_mem hblank)

/-- Some quotes. -/
def quotes (n : Nat) : List Char := List.replicate n '\x22'

/-- A line is a text with quotes around it, and these are all the quotes at its ends. -/
structure IsQuoted (line text : String) : Prop where
  exists_quotes : ∃ m n, line.toList = quotes m ++ text.toList ++ quotes n
  head : '\x22' ∉ text.toList.head?
  last : '\x22' ∉ text.toList.getLast?

/-- A description that can be shown: it says something, on one line, and no blanks are around it. -/
structure IsUsable (text : String) : Prop where
  not_blank : isBlankText text = false
  line : '\n' ∉ text.toList
  trimmed : trim text = text

/-- A line that is nothing but quotes, or has a blank beside the quotes at one of its ends. -/
inductive IsSpoilt : List Char → Prop
  | onlyQuotes (n : Nat) : IsSpoilt (quotes n)
  | blankFirst (n : Nat) (c : Char) (rest : List Char) : isBlank c = true →
      IsSpoilt (quotes n ++ c :: rest)
  | blankLast (front : List Char) (c : Char) (n : Nat) : isBlank c = true →
      IsSpoilt (front ++ c :: quotes n)

lemma all_quotes (n : Nat) : (quotes n).all (· == '\x22') = true := by
  simp [quotes]

lemma exists_quotes_of_all {s : List Char} (h : s.all (· == '\x22') = true) : ∃ n, s = quotes n :=
  ⟨s.length, List.eq_replicate_iff.mpr ⟨rfl, fun c hc => by simpa using List.all_eq_true.mp h c hc⟩⟩

lemma isQuoted_iff : IsQuoted line text ↔
    text = .ofList (trimBy (· == '\x22') line.toList) := by
  have hends : ∀ s : List Char, trimBy (· == '\x22') s = s ↔
      '\x22' ∉ s.head? ∧ '\x22' ∉ s.getLast? := by
    intro s
    rw [trimBy_eq_self_iff]
    simp only [beq_eq_false_iff_ne, ne_eq]
    exact and_congr ⟨fun h hc => h _ hc rfl, fun h c hc heq => h (heq ▸ hc)⟩
      ⟨fun h hc => h _ hc rfl, fun h c hc heq => h (heq ▸ hc)⟩
  constructor
  · rintro ⟨⟨m, n, hline⟩, hhead, hlast⟩
    rw [hline, trimBy_blanks (all_quotes m) (all_quotes n), (hends _).mpr ⟨hhead, hlast⟩,
      String.ofList_toList]
  · rintro rfl
    obtain ⟨before, after, hbefore, hafter, hline⟩ := exists_trimBy_eq (· == '\x22') line.toList
    obtain ⟨m, rfl⟩ := exists_quotes_of_all hbefore
    obtain ⟨n, rfl⟩ := exists_quotes_of_all hafter
    have htwice := (hends _).mp (trimBy_trimBy (· == '\x22') line.toList)
    refine ⟨⟨m, n, ?_⟩, ?_, ?_⟩
    · rwa [String.toList_ofList]
    · rw [String.toList_ofList]
      exact htwice.1
    · rw [String.toList_ofList]
      exact htwice.2

lemma IsQuoted.toList_eq (h : IsQuoted line text) :
    text.toList = trimBy (· == '\x22') line.toList := by
  rw [isQuoted_iff.mp h, String.toList_ofList]

lemma isUsable_iff (hline : '\n' ∉ text.toList) : IsUsable text ↔ text.toList ≠ [] ∧
    (∀ c ∈ text.toList.head?, isBlank c = false) ∧
      ∀ c ∈ text.toList.getLast?, isBlank c = false := by
  have htrim : trim text = text ↔ trimBy isBlank text.toList = text.toList := by
    rw [trim, ← String.toList_inj, String.toList_ofList]
  constructor
  · rintro ⟨hblank, -, htrimmed⟩
    refine ⟨fun hnil => ?_, trimBy_eq_self_iff.mp (htrim.mp htrimmed)⟩
    rw [isBlankText, hnil] at hblank
    cases hblank
  · rintro ⟨hne, hends⟩
    refine ⟨?_, hline, htrim.mpr (trimBy_eq_self_iff.mpr hends)⟩
    obtain ⟨c, rest, htext⟩ := List.exists_cons_of_ne_nil hne
    have hc := hends.1 c (by rw [htext]; rfl)
    rw [isBlankText, htext, List.all_cons, hc, Bool.false_and]

/-- Without its quotes, a spoilt line is empty, or has a blank at an end. -/
lemma IsSpoilt.trimBy_quotes {s : List Char} (h : IsSpoilt s) : trimBy (· == '\x22') s = [] ∨
    (∃ c ∈ (trimBy (· == '\x22') s).head?, isBlank c = true) ∨
      ∃ c ∈ (trimBy (· == '\x22') s).getLast?, isBlank c = true := by
  have hquote : ∀ c, isBlank c = true → (c == '\x22') = false := by
    rintro c hc
    rw [beq_eq_false_iff_ne]
    rintro rfl
    revert hc
    decide
  cases h with
  | onlyQuotes n => exact .inl (trimBy_eq_nil (all_quotes n))
  | blankFirst n c rest hc =>
    have hsplit : quotes n ++ c :: rest = quotes n ++ (c :: rest) ++ [] := by simp
    rw [hsplit, trimBy_blanks (all_quotes n) rfl, trimBy_cons (p := (· == '\x22')) (hquote c hc)]
    exact .inr (.inl ⟨c, rfl, hc⟩)
  | blankLast front c n hc =>
    have hsplit : front ++ c :: quotes n = [] ++ (front ++ [c]) ++ quotes n := by simp
    rw [hsplit, trimBy_blanks rfl (all_quotes n),
      trimBy_concat_of_neg (p := (· == '\x22')) (hquote c hc)]
    exact .inr (.inr ⟨c, by simp, hc⟩)

/-- What is left of a line without its quotes is usable, unless taking them off spoils the line. -/
lemma IsQuoted.isUsable_iff (h : IsQuoted line text) (hline : '\n' ∉ text.toList) :
    IsUsable text ↔ ¬IsSpoilt line.toList := by
  rw [DirectoryNotes.isUsable_iff hline]
  constructor
  · rintro ⟨hne, hhead, hlast⟩ hspoilt
    rw [h.toList_eq] at hne hhead hlast
    rcases hspoilt.trimBy_quotes with hnil | ⟨c, hc, hblank⟩ | ⟨c, hc, hblank⟩
    · exact hne hnil
    · rw [hhead c hc] at hblank
      cases hblank
    · rw [hlast c hc] at hblank
      cases hblank
  · intro hclean
    obtain ⟨m, n, hquotes⟩ := h.exists_quotes
    refine ⟨fun hnil => hclean ?_, fun c hc => ?_, fun c hc => ?_⟩
    · rw [hquotes, hnil, List.append_nil, quotes, quotes, List.replicate_append_replicate]
      exact .onlyQuotes _
    · obtain ⟨rest, htext⟩ := List.head?_eq_some_iff.mp hc
      rw [← Bool.not_eq_true]
      intro hblank
      rw [hquotes, htext, List.append_assoc] at hclean
      exact hclean (.blankFirst m c _ hblank)
    · obtain ⟨front, htext⟩ := List.getLast?_eq_some_iff.mp hc
      rw [← Bool.not_eq_true]
      intro hblank
      rw [hquotes, htext, List.append_assoc, List.append_assoc, List.singleton_append,
        ← List.append_assoc] at hclean
      exact hclean (.blankLast _ c n hblank)

lemma firstLine?_eq_some_iff : firstLine? answer = some text ↔
    ∃ line, IsOpening answer line ∧ IsQuoted line text := by
  simp only [firstLine?, Option.map_eq_some_iff, isOpening_iff, isQuoted_iff]
  exact exists_congr fun line => and_congr_right fun _ => eq_comm

/-- An answer that says something has a line that counts. -/
lemma exists_firstLine (h : isBlankText answer = false) : ∃ text, firstLine? answer = some text := by
  obtain ⟨line, hline, hspeaks⟩ := exists_line_of_not_blank h
  cases hfind : ((linesOf answer).map trim).find? (· ≠ "") with
  | some first =>
    exact ⟨.ofList (trimBy (· == '\x22') first.toList), by rw [firstLine?, hfind, Option.map_some]⟩
  | none =>
    have hnone := List.find?_eq_none.mp hfind _ (List.mem_map_of_mem hline)
    simp [trim_eq_empty_iff, hspeaks] at hnone

lemma newline_notMem_firstLine (h : firstLine? answer = some text) : '\n' ∉ text.toList := by
  obtain ⟨line, ⟨before, given, after, hlines, -, -, rfl⟩, hquoted⟩ := firstLine?_eq_some_iff.mp h
  have hgiven : given ∈ linesOf answer := by simp [hlines]
  obtain ⟨chars, hchars, rfl⟩ := List.mem_map.mp hgiven
  rw [hquoted.toList_eq, mem_trimBy_iff (by decide), trim,
    String.toList_ofList, String.toList_ofList]
  exact fun hmem => newline_notMem_of_mem_lines hchars (trimBy_subset hmem)

end

/-! ## Descriptions -/

variable {s : AgentSettings} {send : Transport} {path : Path} {source : String} {facts : SourceFacts}
  {text : String}

/-- What comes of asking the agent about a file. -/
def fileExchange (s : AgentSettings) (send : Transport) (path : Path) (source : String)
    (facts : SourceFacts) : Exchange :=
  send (s.request [.system fileInstructions, .user (filePrompt path source facts)] fileTokens)

lemma describeFile_eq : s.describeFile send path source facts =
    (replyText s (fileExchange s send path source facts)).bind fun answer =>
      match firstLine? answer with
      | some line => .ok line
      | none => .error (.agent "empty file description from agent") := rfl

/-- A description is the first line of an answer that says something, without the quotes around it. -/
lemma describeFile_eq_ok_iff : s.describeFile send path source facts = .ok text ↔
    ∃ answer line, replyText s (fileExchange s send path source facts) = .ok answer ∧
      IsOpening answer line ∧ IsQuoted line text := by
  rw [describeFile_eq]
  cases hreply : replyText s (fileExchange s send path source facts) with
  | error f => simp [Except.bind]
  | ok answer =>
    simp only [Except.bind, Except.ok.injEq, exists_eq_left', exists_and_left,
      ← firstLine?_eq_some_iff]
    cases firstLine? answer <;> simp

/-- Every failure is the agent's. -/
lemma exists_reason_of_describeFile {f : Failure}
    (h : s.describeFile send path source facts = .error f) : ∃ reason, f = .agent reason := by
  rw [describeFile_eq] at h
  cases hreply : replyText s (fileExchange s send path source facts) with
  | error g =>
    rw [hreply] at h
    obtain rfl : g = f := by simpa [Except.bind] using h
    exact exists_reason_of_replyText hreply
  | ok answer =>
    rw [hreply] at h
    simp only [Except.bind] at h
    split at h
    · cases h
    · exact ⟨_, (Except.error.inj h).symm⟩

/-- Any answer has a line to describe the file by. -/
lemma exists_describeFile_iff : (∃ text, s.describeFile send path source facts = .ok text) ↔
    ∃ answer, replyText s (fileExchange s send path source facts) = .ok answer := by
  constructor
  · rintro ⟨text, htext⟩
    obtain ⟨answer, line, hanswer, -⟩ := describeFile_eq_ok_iff.mp htext
    exact ⟨answer, hanswer⟩
  · rintro ⟨answer, hanswer⟩
    obtain ⟨text, htext⟩ := exists_firstLine (not_blank_of_replyText hanswer)
    obtain ⟨line, hline, hquoted⟩ := firstLine?_eq_some_iff.mp htext
    exact ⟨text, describeFile_eq_ok_iff.mpr ⟨answer, line, hanswer, hline, hquoted⟩⟩

/-- Whatever the endpoint replies, asking about a file fails only for want of a text, with an agent's
failure. Otherwise the description is the first line of the text that says something, without the
quotes around it. It is one line, and it can be shown exactly if taking the quotes off does not spoil
the line. -/
theorem describeFile_usable (s : AgentSettings) (send : Transport) (path : Path) (source : String)
    (facts : SourceFacts) :
    (∀ f, s.describeFile send path source facts = .error f → ∃ reason, f = .agent reason) ∧
    ((∃ text, s.describeFile send path source facts = .ok text) ↔
      ∃ answer, replyText s (fileExchange s send path source facts) = .ok answer) ∧
    (∀ text, s.describeFile send path source facts = .ok text ↔
      ∃ answer line, replyText s (fileExchange s send path source facts) = .ok answer ∧
        IsOpening answer line ∧ IsQuoted line text) ∧
    ∀ answer line text, replyText s (fileExchange s send path source facts) = .ok answer →
      IsOpening answer line → s.describeFile send path source facts = .ok text →
        '\n' ∉ text.toList ∧ (IsUsable text ↔ ¬IsSpoilt line.toList) := by
  refine ⟨fun f => exists_reason_of_describeFile, exists_describeFile_iff,
    fun text => describeFile_eq_ok_iff, fun answer line text hanswer hline htext => ?_⟩
  obtain ⟨answer', line', hanswer', hline', hquoted⟩ := describeFile_eq_ok_iff.mp htext
  obtain rfl := Except.ok.inj (hanswer.symm.trans hanswer')
  obtain rfl := Option.some.inj ((isOpening_iff.mp hline).symm.trans (isOpening_iff.mp hline'))
  have hfirst := firstLine?_eq_some_iff.mpr ⟨line, hline, hquoted⟩
  have hnewline := newline_notMem_firstLine hfirst
  exact ⟨hnewline, hquoted.isUsable_iff hnewline⟩

/-- The settings of an agent that anyone may ask. -/
def openAgent : AgentSettings := ⟨"http://127.0.0.1/v1", "test-model", none, 5000⟩

/-- A reply whose text is a sentence between quotes. -/
def quotedReply : String :=
  "\x7b\"choices\":[\x7b\"message\":\x7b\"content\":\"\\n \\\"Boots the server.\\\" \"\x7d\x7d]\x7d"

/-- A reply whose text is nothing but two quotes. -/
def emptyQuotesReply : String :=
  "\x7b\"choices\":[\x7b\"message\":\x7b\"content\":\"\\\"\\\"\"\x7d\x7d]\x7d"

theorem describeFile_quotedReply :
    openAgent.describeFile (fun _ => .reply 200 quotedReply) ⟨"a.ts"⟩ "" {} =
      .ok "Boots the server." ∧ IsUsable "Boots the server." := by
  have hbody : bodyText quotedReply = .ok "\"Boots the server.\"" := by decide +kernel
  have hanswer : replyText openAgent (.reply 200 quotedReply) = .ok "\"Boots the server.\"" := by
    rw [replyText_reply (by decide), hbody]
  have hopening : IsOpening "\"Boots the server.\"" "\"Boots the server.\"" :=
    ⟨[], "\"Boots the server.\"", [], by decide, by decide, by decide, by decide⟩
  have hquoted : IsQuoted "\"Boots the server.\"" "Boots the server." :=
    ⟨⟨1, 1, by decide⟩, by decide, by decide⟩
  have hhead : "Boots the server.".toList.head? = some 'B' := by decide
  have hlast : "Boots the server.".toList.getLast? = some '.' := by decide
  have hclean : ¬IsSpoilt "\"Boots the server.\"".toList := by
    intro hspoilt
    have hends := hspoilt.trimBy_quotes
    rw [← hquoted.toList_eq, hhead, hlast] at hends
    rcases hends with hnil | ⟨c, hc, hblank⟩ | ⟨c, hc, hblank⟩
    · exact absurd hnil (by decide)
    · obtain rfl := Option.some.inj hc
      exact absurd hblank (by decide)
    · obtain rfl := Option.some.inj hc
      exact absurd hblank (by decide)
  obtain ⟨-, -, hok, husable⟩ :=
    describeFile_usable openAgent (fun _ => .reply 200 quotedReply) ⟨"a.ts"⟩ "" {}
  have htext := (hok "Boots the server.").mpr ⟨_, _, hanswer, hopening, hquoted⟩
  exact ⟨htext, (husable _ _ _ hanswer hopening htext).2.mpr hclean⟩

/-- Two quotes are taken for a sentence, and what is between them for the description. -/
theorem describeFile_emptyQuotes :
    openAgent.describeFile (fun _ => .reply 200 emptyQuotesReply) ⟨"a.ts"⟩ "" {} = .ok "" ∧
      ¬IsUsable "" := by
  refine ⟨?_, fun h => absurd h.not_blank (by decide)⟩
  have hbody : bodyText emptyQuotesReply = .ok "\"\"" := by decide +kernel
  have hopening : IsOpening "\"\"" "\"\"" :=
    ⟨[], "\"\"", [], by decide, by decide, by decide, by decide⟩
  have hquoted : IsQuoted "\"\"" "" := ⟨⟨1, 1, by decide⟩, by decide, by decide⟩
  refine describeFile_eq_ok_iff.mpr ⟨_, _, ?_, hopening, hquoted⟩
  rw [fileExchange, replyText_reply (by decide), hbody]

end DirectoryNotes
