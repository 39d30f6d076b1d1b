import DirectoryNotes.Proofs.Text.Items
import DirectoryNotes.Proofs.VersionControl.Reports

/-!
# Paths in a report

A path with a blank or an odd character in it is written between quotes, with backslashes before what
cannot stand there as it is. A reader that takes off the quotes and undoes nothing keeps the
backslashes, and an arrow between the quotes looks to it like the one in front of a new path:

* `escape`, `written`: how a path is written, and how many backslashes that takes;
* `afterArrow?_eq_none_iff`, `afterArrow?_arrow`: which arrow a path is looked for behind;
* `unquoted_written`: the quotes are taken off;
* `Entry`, `Entry.text`: a line of a report;
* `pathOfLine_text_eq_iff`: the entries whose path is read as it is.
-/

namespace DirectoryNotes.Status

open Text (isBlank trimBy trimEndBy count_trimBy mem_trimBy_iff trimBy_eq_self)

variable {c x y : Char} {cs rest path : List Char}

/-! ## Arrows -/

lemma arrow_eq : arrow = [' ', '-', '>', ' '] := rfl

lemma afterArrow?_eq_none_iff : afterArrow? cs = none ↔ ¬arrow <:+: cs := by
  induction cs with
  | nil => simp [afterArrow?, arrow_eq]
  | cons c cs ih =>
    rw [List.infix_cons_iff, not_or, ← ih, ← List.isPrefixOf_iff_prefix, afterArrow?]
    cases afterArrow? cs with
    | none => simp
    | some rest => simp

lemma afterArrow?_append (h : afterArrow? cs = some rest) (front : List Char) :
    afterArrow? (front ++ cs) = some rest := by
  induction front with
  | nil => exact h
  | cons c front ih =>
    rw [List.cons_append, afterArrow?, ih]

/-- An arrow is the last one if none begins with its blank or behind it. -/
lemma afterArrow?_arrow (h : afterArrow? (' ' :: rest) = none) :
    afterArrow? (arrow ++ rest) = some rest := by
  show afterArrow? (' ' :: '-' :: '>' :: ' ' :: rest) = some rest
  have hhead : afterArrow? ('>' :: ' ' :: rest) = none := by
    rw [afterArrow?, h]
    rfl
  have hshaft : afterArrow? ('-' :: '>' :: ' ' :: rest) = none := by
    rw [afterArrow?, hhead]
    rfl
  rw [afterArrow?, hshaft]
  rfl

lemma count_afterArrow? (h : afterArrow? cs = some rest) : rest.count '>' < cs.count '>' := by
  induction cs with
  | nil => cases h
  | cons c cs ih =>
    rw [afterArrow?] at h
    cases hlater : afterArrow? cs with
    | some later =>
      rw [hlater] at h
      cases h
      exact Nat.lt_of_lt_of_le (ih hlater) List.count_le_count_cons
    | none =>
      rw [hlater] at h
      by_cases harrow : arrow.isPrefixOf (c :: cs) = true
      · obtain ⟨behind, hbehind⟩ := List.isPrefixOf_iff_prefix.mp harrow
        rw [if_pos harrow, ← hbehind, List.drop_left] at h
        cases h
        rw [← hbehind, List.count_append, arrow_eq]
        exact Nat.lt_add_of_pos_left (by decide)
      · rw [if_neg harrow] at h
        cases h

/-! ## How a path is written -/

/-- The character cannot stand between quotes as it is. -/
def IsEscaped (c : Char) : Prop := c = '\x22' ∨ c = '\\' ∨ c.toNat < 0x20 ∨ 0x7F ≤ c.toNat

instance : DecidablePred IsEscaped := fun _ => instDecidableOr

/-- A byte in three digits. -/
def octal (b : UInt8) : List Char :=
  ['\\', Nat.digitChar (b.toNat / 64), Nat.digitChar (b.toNat / 8 % 8), Nat.digitChar (b.toNat % 8)]

/-- A character as it is written between quotes. -/
def escape (c : Char) : List Char :=
  if c = '\x22' ∨ c = '\\' then ['\\', c]
  else if IsEscaped c then (String.utf8EncodeChar c).flatMap octal
  else [c]

/-- The path is written between quotes. -/
def isQuoted (path : List Char) : Bool := path.any fun c => c = ' ' ∨ IsEscaped c

/-- A path as it is written. -/
def written (path : List Char) : List Char :=
  if isQuoted path then '\x22' :: (path.flatMap escape ++ ['\x22']) else path

lemma isQuoted_iff : isQuoted path = true ↔ ∃ c ∈ path, c = ' ' ∨ IsEscaped c := by
  simp [isQuoted]

/-- Among the characters that are not escaped, one is blank. -/
lemma isBlank_eq_false (h : ¬IsEscaped c) (hspace : c ≠ ' ') : isBlank c = false := by
  have hnat : c.toNat ≠ 0x20 := fun heq => hspace (Char.toNat_inj.mp heq)
  simp only [IsEscaped, not_or] at h
  simp only [isBlank, Bool.or_eq_false_iff, Bool.and_eq_false_iff, decide_eq_false_iff_not,
    beq_eq_false_iff_ne]
  omega

lemma escape_of_not (h : ¬IsEscaped c) : escape c = [c] := by
  have hneither : ¬(c = '\x22' ∨ c = '\\') := fun hmark => h (by
    rcases hmark with hquote | hslash
    · exact .inl hquote
    · exact .inr (.inl hslash))
  rw [escape, if_neg hneither, if_neg h]

lemma flatMap_escape (h : ∀ c ∈ path, ¬IsEscaped c) : path.flatMap escape = path := by
  induction path with
  | nil => rfl
  | cons c path ih =>
    rw [List.flatMap_cons, escape_of_not (h c List.mem_cons_self),
      ih fun d hd => h d (List.mem_cons_of_mem _ hd), List.singleton_append]

lemma count_octal (b : UInt8) : (octal b).count '\\' = 1 ∧ (octal b).count '>' = 0 := by
  have hdigit : ∀ n < 8, Nat.digitChar n ≠ '\\' ∧ Nat.digitChar n ≠ '>' := by decide
  have hbyte : b.toNat < 256 := b.toNat_lt
  have hhigh := hdigit (b.toNat / 64) (by omega)
  have hmiddle := hdigit (b.toNat / 8 % 8) (by omega)
  have hlow := hdigit (b.toNat % 8) (by omega)
  simp [octal, hhigh, hmiddle, hlow]

lemma count_flatMap_octal (bytes : List UInt8) :
    (bytes.flatMap octal).count '\\' = bytes.length ∧ (bytes.flatMap octal).count '>' = 0 := by
  induction bytes with
  | nil => exact ⟨rfl, rfl⟩
  | cons b bytes ih =>
    obtain ⟨hslash, harrow⟩ := count_octal b
    rw [List.flatMap_cons, List.count_append, List.count_append, hslash, harrow, ih.1, ih.2,
      List.length_cons]
    omega

/-- What is escaped is written with more backslashes. -/
lemma count_escape (c : Char) :
    [c].count '\\' + [c].countP (IsEscaped ·) ≤ (escape c).count '\\' ∧
      (escape c).count '>' = [c].count '>' := by
  by_cases hmark : c = '\x22' ∨ c = '\\'
  · rw [escape, if_pos hmark]
    rcases hmark with rfl | rfl
    · decide
    · decide
  · by_cases hescaped : IsEscaped c
    · have hslash : c ≠ '\\' := fun h => hmark (.inr h)
      have harrow : c ≠ '>' := by
        rintro rfl
        revert hescaped
        decide
      have hpos := c.utf8Size_pos
      obtain ⟨hbytes, hnone⟩ := count_flatMap_octal (String.utf8EncodeChar c)
      rw [escape, if_neg hmark, if_pos hescaped, hbytes, hnone, String.length_utf8EncodeChar]
      simp only [List.count_singleton, List.countP_singleton, beq_iff_eq, hslash, harrow, hescaped,
        if_false, decide_true, if_true, and_true]
      omega
    · rw [escape_of_not hescaped]
      simp [hescaped]

lemma count_flatMap_escape (path : List Char) :
    path.count '\\' + path.countP (IsEscaped ·) ≤ (path.flatMap escape).count '\\' ∧
      (path.flatMap escape).count '>' = path.count '>' := by
  induction path with
  | nil => exact ⟨le_rfl, rfl⟩
  | cons c path ih =>
    obtain ⟨hslash, harrow⟩ := count_escape c
    rw [← List.singleton_append, List.flatMap_append, List.flatMap_singleton]
    simp only [List.count_append, List.countP_append]
    omega

lemma count_written (path : List Char) :
    path.count '\\' + path.countP (IsEscaped ·) ≤ (written path).count '\\' ∧
      (written path).count '>' = path.count '>' := by
  obtain ⟨hslash, harrow⟩ := count_flatMap_escape path
  unfold written
  split_ifs with h
  · simpa [List.count_cons, List.count_append] using ⟨hslash, harrow⟩
  · have hnone : path.countP (IsEscaped ·) = 0 := by
      rw [List.countP_eq_zero]
      intro c hc hescaped
      exact h (isQuoted_iff.mpr ⟨c, hc, .inr (of_decide_eq_true hescaped)⟩)
    exact ⟨by rw [hnone, Nat.add_zero], rfl⟩

/-! ## Taking off the quotes -/

/-- A written path without the quotes around it. -/
def unquoted (written : List Char) : List Char := trimBy (· == '\x22') (trimBy isBlank written)

lemma count_unquoted (hblank : isBlank c = false) (hquote : c ≠ '\x22') (cs : List Char) :
    (unquoted cs).count c = cs.count c := by
  rw [unquoted, count_trimBy (by simpa using hquote), count_trimBy hblank]

/-- Quotes keep the blanks between them. -/
lemma unquoted_quoted (hpath : '\x22' ∉ path) : unquoted ('\x22' :: (path ++ ['\x22'])) = path := by
  have hblank : isBlank '\x22' = false := by decide
  have hend : trimEndBy isBlank (path ++ ['\x22']) = path ++ ['\x22'] := by
    simp [trimEndBy, hblank]
  have hquotes : trimBy (· == '\x22') (['\x22'] ++ path ++ ['\x22']) = trimBy (· == '\x22') path :=
    Text.trimBy_blanks rfl rfl
  rw [unquoted, Text.trimBy_cons hblank, hend]
  refine hquotes.trans ?_
  apply trimBy_eq_self
  intro c hc
  rw [beq_eq_false_iff_ne]
  rintro rfl
  exact hpath hc

/-- Nothing is lost of a path without escapes. -/
lemma unquoted_written (h : ∀ c ∈ path, ¬IsEscaped c) : unquoted (written path) = path := by
  have hquote : '\x22' ∉ path := fun hmem => h _ hmem (.inl rfl)
  unfold written
  split_ifs with hspace
  · rw [flatMap_escape h, unquoted_quoted hquote]
  · have hblank : ∀ c ∈ path, isBlank c = false := by
      intro c hc
      have hplain := h c hc
      have hnospace : c ≠ ' ' := fun heq => hspace (isQuoted_iff.mpr ⟨c, hc, .inl heq⟩)
      exact isBlank_eq_false hplain hnospace
    rw [unquoted, trimBy_eq_self hblank, trimBy_eq_self]
    intro c hc
    rw [beq_eq_false_iff_ne]
    rintro rfl
    exact hquote hc

/-- Nothing is lost of a path without escapes, and no escape is undone. -/
lemma unquoted_written_iff : unquoted (written path) = path ↔ ∀ c ∈ path, ¬IsEscaped c := by
  constructor
  · intro h
    have hslash := (count_written path).1
    have hkept : (unquoted (written path)).count '\\' = (written path).count '\\' :=
      count_unquoted (by decide) (by decide) _
    rw [← hkept, h] at hslash
    have hnone : path.countP (IsEscaped ·) = 0 := by omega
    simpa [List.countP_eq_zero] using hnone
  · exact unquoted_written

lemma infix_written (h : ∀ c ∈ path, ¬IsEscaped c) : path <:+: written path := by
  unfold written
  split_ifs
  · rw [flatMap_escape h]
    exact ⟨['\x22'], ['\x22'], rfl⟩
  · exact List.infix_rfl

/-! ## Paths behind an arrow -/

/-- No arrow begins with the blank before a written path unless there is one in the path. -/
lemma afterArrow?_written (hplain : ∀ c ∈ path, ¬IsEscaped c) (harrow : ¬arrow <:+: path) :
    afterArrow? (' ' :: written path) = none := by
  rw [afterArrow?_eq_none_iff, List.infix_cons_iff]
  unfold written
  split_ifs with hspace
  · -- the quotes are no part of an arrow
    have hend : ¬arrow <:+ path ++ ['\x22'] := by
      rintro ⟨front, hfront⟩
      have hlast := congrArg List.getLast? hfront
      rw [List.getLast?_append_of_ne_nil _ (by decide), List.getLast?_concat] at hlast
      cases hlast
    rw [flatMap_escape hplain, List.infix_cons_iff, List.infix_concat_iff]
    rintro (hfront | hfront | hlast | hinside)
    · rw [arrow_eq, List.cons_prefix_cons, List.cons_prefix_cons] at hfront
      exact absurd hfront.2.1 (by decide)
    · rw [arrow_eq, List.cons_prefix_cons] at hfront
      exact absurd hfront.1 (by decide)
    · exact hend hlast
    · exact harrow hinside
  · rintro (hfront | hinside)
    · rw [arrow_eq, List.cons_prefix_cons] at hfront
      obtain ⟨rest, rfl⟩ := hfront.2
      exact hspace (isQuoted_iff.mpr ⟨' ', by simp, .inl rfl⟩)
    · exact harrow hinside

/-- The path behind the last arrow is the new one if that has neither an escape nor an arrow. -/
lemma unquoted_afterArrow?_iff (source other : List Char) :
    unquoted ((afterArrow? (source ++ (arrow ++ written path))).getD other) = path ↔
      (∀ c ∈ path, ¬IsEscaped c) ∧ ¬arrow <:+: path := by
  constructor
  · intro h
    cases hlater : afterArrow? (' ' :: written path) with
    | some later =>
      -- an arrow in the path itself: what follows it has fewer heads of arrows than the path
      have hsplit : source ++ (arrow ++ written path) =
          (source ++ [' ', '-', '>']) ++ ' ' :: written path := by simp [arrow_eq]
      have hkept : (unquoted later).count '>' = later.count '>' :=
        count_unquoted (by decide) (by decide) _
      have hfewer := count_afterArrow? hlater
      rw [hsplit, afterArrow?_append hlater, Option.getD_some] at h
      rw [List.count_cons_of_ne (by decide), (count_written path).2, ← hkept, h] at hfewer
      exact absurd hfewer (Nat.lt_irrefl _)
    | none =>
      rw [afterArrow?_append (afterArrow?_arrow hlater), Option.getD_some] at h
      have hplain := unquoted_written_iff.mp h
      refine ⟨hplain, ?_⟩
      intro harrow
      exact afterArrow?_eq_none_iff.mp hlater
        ((harrow.trans (infix_written hplain)).trans (List.suffix_cons _ _).isInfix)
  · rintro ⟨hplain, harrow⟩
    have hlast := afterArrow?_arrow (afterArrow?_written hplain harrow)
    rw [afterArrow?_append hlast, Option.getD_some, unquoted_written hplain]

/-! ## Lines -/

/-- The path that is told by what stands behind the letters. -/
def told? (cs : List Char) : Option Path :=
  match unquoted cs with
  | [] => none
  | path => some ⟨.ofList path⟩

lemma told?_eq_some_iff {text : String} :
    told? cs = some ⟨text⟩ ↔ text ≠ "" ∧ unquoted cs = text.toList := by
  unfold told?
  cases unquoted cs with
  | nil =>
    constructor
    · intro h
      cases h
    · rintro ⟨hne, hnil⟩
      exact absurd (String.toList_eq_nil_iff.mp hnil.symm) hne
  | cons c path =>
    rw [Option.some.injEq, Path.mk.injEq]
    constructor
    · rintro rfl
      exact ⟨by simp, String.toList_ofList.symm⟩
    · rintro ⟨-, hpath⟩
      rw [hpath, String.ofList_toList]

/-- Two letters of one byte and a blank are the mark of a line. -/
lemma pathOfLine_letters (hx : x.toNat < 0x80) (hy : y.toNat < 0x80) (cs : List Char) :
    pathOfLine (.ofList (x :: y :: ' ' :: cs)) = .ok (if 'D' ∈ [x, y] then none
      else told? (if 'R' ∈ [x, y] ∨ 'C' ∈ [x, y] then (afterArrow? cs).getD cs else cs)) := by
  have hletter : ∀ c : Char, isBlank c = false →
      ((trimBy isBlank [x, y, ' ']).contains c = true ↔ c ∈ [x, y]) := by
    intro c hc
    have hspace : c ≠ ' ' := by
      rintro rfl
      cases hc
    rw [List.contains_iff_mem, mem_trimBy_iff hc]
    simp [hspace]
  have honebyte : ∀ c : Char, c.toNat < 0x80 → c.utf8Size = 1 := fun c hc =>
    Char.utf8Size_eq_one_iff.mpr (Nat.le_of_lt_succ hc)
  have hmark : String.utf8Len [x, y, ' '] = markBytes := by
    simp only [String.utf8Len_cons, String.utf8Len_nil, honebyte x hx, honebyte y hy]
    rfl
  have htold : ∀ text : List Char,
      (match trimBy (· == '\x22') (trimBy isBlank text) with
        | [] => .ok none
        | path => .ok (some ⟨.ofList path⟩)) = (.ok (told? text) : Except Failure (Option Path)) := by
    intro text
    unfold told? unquoted
    cases trimBy (· == '\x22') (trimBy isBlank text) with
    | nil => rfl
    | cons c path => rfl
  by_cases hnil : cs = []
  · subst hnil
    have hsize : (String.ofList [x, y, ' ']).utf8ByteSize ≤ markBytes := by
      rw [String.utf8ByteSize_ofList, hmark]
    rw [pathOfLine, if_pos hsize]
    split_ifs <;> rfl
  · have hsize : ¬(String.ofList (x :: y :: ' ' :: cs)).utf8ByteSize ≤ markBytes := by
      have hpos : String.utf8Len cs ≠ 0 := fun h => hnil (String.utf8Len_eq_zero.mp h)
      have hsum := String.utf8Len_append [x, y, ' '] cs
      rw [String.utf8ByteSize_ofList]
      show ¬String.utf8Len ([x, y, ' '] ++ cs) ≤ markBytes
      omega
    have hcut : cutBytes? markBytes (x :: y :: ' ' :: cs) = some ([x, y, ' '], cs) :=
      cutBytes?_eq_some_iff.mpr ⟨rfl, hmark⟩
    rw [pathOfLine, if_neg hsize, String.toList_ofList, hcut]
    simp only [Bool.or_eq_true, hletter 'D' (by decide), hletter 'R' (by decide),
      hletter 'C' (by decide)]
    by_cases hgone : 'D' ∈ [x, y]
    · rw [if_pos hgone, if_pos hgone]
    · rw [if_neg hgone, if_neg hgone]
      by_cases hmoved : 'R' ∈ [x, y] ∨ 'C' ∈ [x, y]
      · simp only [if_pos hmoved]
        exact htold _
      · simp only [if_neg hmoved]
        exact htold _

/-- A line of a report: two letters of one byte and a path, which has come from another one when a
letter says so. -/
structure Entry where
  index : Char
  tree : Char
  source? : Option String
  path : String
  letters : index.toNat < 0x80 ∧ tree.toNat < 0x80
  moved : source?.isSome ↔ 'R' ∈ [index, tree] ∨ 'C' ∈ [index, tree]

namespace Entry

/-- The paths of an entry as they are written. -/
def paths (e : Entry) : List Char :=
  match e.source? with
  | none => written e.path.toList
  | some source => written source.toList ++ (arrow ++ written e.path.toList)

/-- The entry as it is printed. -/
def text (e : Entry) : String := .ofList (e.index :: e.tree :: ' ' :: e.paths)

lemma pathOfLine_text (e : Entry) : pathOfLine e.text = .ok (if 'D' ∈ [e.index, e.tree] then none
    else told? (if e.source?.isSome then (afterArrow? e.paths).getD e.paths else e.paths)) := by
  unfold text
  rw [pathOfLine_letters e.letters.1 e.letters.2]
  simp only [e.moved]

end Entry

/-- The path of an entry is read as it is unless the entry speaks of a deletion, a character of the
path is escaped, or the path has come from another one and holds an arrow. -/
theorem pathOfLine_text_eq_iff (e : Entry) :
    pathOfLine e.text = .ok (some ⟨e.path⟩) ↔
      'D' ∉ [e.index, e.tree] ∧ e.path ≠ "" ∧ (∀ c ∈ e.path.toList, ¬IsEscaped c) ∧
        (e.source?.isSome → ¬arrow <:+: e.path.toList) := by
  rw [e.pathOfLine_text, Except.ok.injEq]
  by_cases hgone : 'D' ∈ [e.index, e.tree]
  · simp [hgone]
  · rw [if_neg hgone, told?_eq_some_iff]
    simp only [hgone, not_false_eq_true, true_and, and_congr_right_iff]
    intro hne
    cases hsource : e.source? with
    | none =>
      simp only [Entry.paths, hsource, Option.isSome_none, Bool.false_eq_true, if_false,
        false_implies, and_true]
      exact unquoted_written_iff
    | some source =>
      simp only [Entry.paths, hsource, Option.isSome_some, if_true, true_implies]
      exact unquoted_afterArrow?_iff _ _

/-- A new file with an accented letter in its name. -/
def accentEntry : Entry := ⟨'?', '?', none, "café.ts", by decide, by decide⟩

/-- A renamed file with an arrow in its new name. -/
def arrowEntry : Entry := ⟨'R', ' ', some "a.ts", "b -> c.ts", by decide, by decide⟩

theorem pathOfLine_accentEntry :
    accentEntry.text = "?? \x22caf\\303\\251.ts\x22" ∧
      pathOfLine accentEntry.text = .ok (some ⟨"caf\\303\\251.ts"⟩) ∧
    arrowEntry.text = "R  a.ts -> \x22b -> c.ts\x22" ∧
      pathOfLine arrowEntry.text = .ok (some ⟨"c.ts"⟩) := by
  rw [Entry.pathOfLine_text, Entry.pathOfLine_text]
  decide

end DirectoryNotes.Status
