import DirectoryNotes.Proofs.Pattern.Steps

/-!
# What a match spans

A match tells where its parts stand. `Pattern.Spans` says which texts a pattern can take before a
given rest, part by part and without regard to which way is tried first:

* `exists_spans_of_attempt`, `exists_of_matchAt?`: whatever matches, spans;
* `IsHead`: the places at which a search tries a pattern, one for each line that is not blank;
* `exists_of_mem_inLines`: every match of a search spans what follows such a place;
* `mem_inLines_or_crossed`: at such a place no match is missed, unless an earlier one goes over the
  beginning of the line.
-/

namespace DirectoryNotes

namespace Pattern

open Text (isBlank)

/-! ## Spans -/

/-- Stretches before `rest`, one after the other, each of a kind, and the groups of all of them. -/
inductive Chain (kind : List Char → List Char → Groups → Prop) (rest : List Char) :
    List Char → Groups → Prop where
  | nil : Chain kind rest [] []
  | cons {taken taken' : List Char} {added added' : Groups} :
      kind taken (taken' ++ rest) added → Chain kind rest taken' added' →
        Chain kind rest (taken ++ taken') (added' ++ added)

/-- Before `rest`, the pattern can take `taken` and fill the groups `added`. -/
def Spans : Pattern → List Char → List Char → Groups → Prop
  | .empty, taken, _, added => taken = [] ∧ added = []
  | .lineEnd, taken, rest, added => taken = [] ∧ rest.head?.all (· == '\n') = true ∧ added = []
  | .one cls, taken, _, added => (∃ c, taken = [c] ∧ cls c = true) ∧ added = []
  | .run cls, taken, rest, added =>
    taken.all cls = true ∧ rest.head?.any cls = false ∧ added = []
  | .seq p q, taken, rest, added => ∃ first second inFirst inSecond,
    taken = first ++ second ∧ added = inSecond ++ inFirst ∧
      p.Spans first (second ++ rest) inFirst ∧ q.Spans second rest inSecond
  | .choice p q, taken, rest, added => p.Spans taken rest added ∨ q.Spans taken rest added
  | .repeated p, taken, rest, added => Chain p.Spans rest taken added
  | .group n p, taken, rest, added => ∃ inner, added = (n, taken) :: inner ∧
    p.Spans taken rest inner

variable {α : Type} {p q : Pattern} {cls : Char → Bool} {index : Nat} {groups added : Groups}
  {k : Cursor → Groups → Option α} {x : α} {text taken rest : List Char}

/-- After a stretch that the pattern spans, the continuation gives the result. -/
def Ends (p : Pattern) (index : Nat) (text : List Char) (groups : Groups)
    (k : Cursor → Groups → Option α) (x : α) : Prop :=
  ∃ taken rest added, text = taken ++ rest ∧ p.Spans taken rest added ∧
    k ⟨index + taken.length, rest⟩ (added ++ groups) = some x

lemma exists_afterRun (cls : Char → Bool) (index : Nat) (text : List Char) :
    ∃ taken rest, text = taken ++ rest ∧ taken.all cls = true ∧ rest.head?.any cls = false ∧
      afterRun cls index text = ⟨index + taken.length, rest⟩ := by
  have htaken : (text.takeWhile cls).all cls = true := List.all_takeWhile
  have hrest : (text.dropWhile cls).head?.any cls = false := by
    cases hdrop : (text.dropWhile cls).head? with
    | none => rfl
    | some c =>
      have hc := List.head?_dropWhile_not cls text
      rw [hdrop] at hc
      simpa using hc
  refine ⟨text.takeWhile cls, text.dropWhile cls, List.takeWhile_append_dropWhile.symm, htaken,
    hrest, ?_⟩
  have hrun : afterRun cls index (text.takeWhile cls ++ text.dropWhile cls) =
      ⟨index + (text.takeWhile cls).length, text.dropWhile cls⟩ :=
    afterRun_append (List.all_eq_true.mp htaken) (forall_head? hrest)
  rwa [List.takeWhile_append_dropWhile] at hrun

lemma repeatThen_ends
    (hp : ∀ index text groups (k : Cursor → Groups → Option α),
      p.attempt ⟨index, text⟩ groups k = some x → p.Ends index text groups k x)
    (bound : List Char)
    (h : repeatThen (fun here groups k => p.attempt here groups k) k bound ⟨index, text⟩ groups =
      some x) :
    (repeated p).Ends index text groups k x := by
  induction bound generalizing index text groups with
  | nil => exact ⟨[], text, [], rfl, .nil, h⟩
  | cons _ bound ih =>
    rw [repeatThen] at h
    split at h
    · next found hfound =>
      obtain rfl := Option.some.inj h
      -- the first stretch, and then those that are left
      obtain ⟨taken, rest, added, rfl, hspans, hk⟩ := hp _ _ _ _ hfound
      obtain ⟨taken', rest', added', rfl, hspans', hk'⟩ := ih hk
      refine ⟨taken ++ taken', rest', added' ++ added, by rw [List.append_assoc],
        .cons hspans hspans', ?_⟩
      rwa [List.length_append, ← Nat.add_assoc, List.append_assoc]
    · exact ⟨[], text, [], rfl, .nil, h⟩

/-- Whatever an attempt takes, the pattern spans. -/
theorem exists_spans_of_attempt (h : p.attempt ⟨index, text⟩ groups k = some x) :
    p.Ends index text groups k x := by
  induction p generalizing index text groups k with
  | empty => exact ⟨[], text, [], rfl, ⟨rfl, rfl⟩, h⟩
  | lineEnd =>
    rw [attempt] at h
    split at h
    · next hend =>
      refine ⟨[], text, [], rfl, ⟨rfl, ?_, rfl⟩, h⟩
      cases text with
      | nil => rfl
      | cons c cs => simpa [Cursor.atLineEnd] using hend
    · cases h
  | one cls =>
    cases text with
    | nil => cases h
    | cons c cs =>
      have hstep : (if cls c = true then k ⟨index + 1, cs⟩ groups else none) = some x := h
      obtain ⟨hc, hk⟩ := Option.ite_none_right_eq_some.mp hstep
      exact ⟨[c], cs, [], rfl, ⟨⟨c, rfl, hc⟩, rfl⟩, hk⟩
  | run cls =>
    obtain ⟨taken, rest, htext, htaken, hrest, hrun⟩ := exists_afterRun cls index text
    rw [attempt, hrun] at h
    exact ⟨taken, rest, [], htext, ⟨htaken, hrest, rfl⟩, h⟩
  | seq p q ihp ihq =>
    obtain ⟨first, rest, inFirst, rfl, hfirst, hq⟩ := ihp h
    obtain ⟨second, rest, inSecond, rfl, hsecond, hk⟩ := ihq hq
    refine ⟨first ++ second, rest, inSecond ++ inFirst, by rw [List.append_assoc],
      ⟨first, second, inFirst, inSecond, rfl, rfl, hfirst, hsecond⟩, ?_⟩
    rwa [List.length_append, ← Nat.add_assoc, List.append_assoc]
  | choice p q ihp ihq =>
    rw [attempt] at h
    split at h
    · next found hfound =>
      obtain rfl := Option.some.inj h
      obtain ⟨taken, rest, added, htext, hspans, hk⟩ := ihp hfound
      exact ⟨taken, rest, added, htext, .inl hspans, hk⟩
    · obtain ⟨taken, rest, added, htext, hspans, hk⟩ := ihq h
      exact ⟨taken, rest, added, htext, .inr hspans, hk⟩
  | repeated p ih => exact repeatThen_ends (fun _ _ _ _ => ih) text h
  | group n p ih =>
    rw [attempt_group] at h
    obtain ⟨taken, rest, inner, rfl, hspans, hk⟩ := ih h
    dsimp only at hk
    rw [textTo_append] at hk
    exact ⟨taken, rest, (n, taken) :: inner, rfl, ⟨inner, rfl, hspans⟩, hk⟩

/-- A match spans the text from its start to its end. -/
lemma exists_of_matchAt? {m : Match} (h : p.matchAt? ⟨index, text⟩ = some m) :
    ∃ taken rest, text = taken ++ rest ∧ p.Spans taken rest m.groups ∧
      m.start = ⟨index, text⟩ ∧ m.stop = ⟨index + taken.length, rest⟩ := by
  obtain ⟨taken, rest, added, htext, hspans, hk⟩ := exists_spans_of_attempt h
  obtain rfl := Option.some.inj hk
  refine ⟨taken, rest, htext, ?_, rfl, rfl⟩
  rwa [List.append_nil]

/-! ## Places of a search -/

/-- A place at which a search tries a pattern: `line` are the lines before it, `indent` the blanks
that it leaves out, and it stands before `rest`. -/
structure IsHead (text line indent rest : List Char) : Prop where
  text_eq : text = line ++ indent ++ rest
  line : line.getLast?.all (· == '\n') = true
  indent : indent.all isBlank = true
  begins : rest.head?.any (!isBlank ·) = true

lemma exists_of_mem_inLinesFrom_head {m : Match} {index skip : Nat} {fresh : Bool}
    {before text : List Char} (hindex : index = before.length)
    (hfresh : fresh = true → ∃ line indent, before = line ++ indent ∧
      line.getLast?.all (· == '\n') = true ∧ indent.all isBlank = true)
    (h : m ∈ p.inLinesFrom index fresh skip text) :
    ∃ line indent taken rest, IsHead (before ++ text) line indent (taken ++ rest) ∧
      p.Spans taken rest m.groups ∧ m.start = ⟨(line ++ indent).length, taken ++ rest⟩ ∧
        m.stop = ⟨(line ++ indent ++ taken).length, rest⟩ := by
  induction text generalizing index skip fresh before with
  | nil => cases h
  | cons c cs ih =>
    rcases mem_inLinesFrom_cons h with ⟨hhere, hblank, hmatch⟩ | ⟨fresh', _, h, hfresh'⟩
    · obtain ⟨line, indent, rfl, hline, hindent⟩ := hfresh hhere
      obtain ⟨taken, rest, htext, hspans, hstart, hstop⟩ := exists_of_matchAt? hmatch
      have hlength : (line ++ indent ++ taken).length = (line ++ indent).length + taken.length :=
        List.length_append
      rw [htext, hindex] at hstart
      rw [hindex, ← hlength] at hstop
      refine ⟨line, indent, taken, rest, ⟨by rw [htext], hline, hindent, ?_⟩, hspans, hstart, hstop⟩
      rw [← htext]
      simpa using hblank
    · have hsplit : before ++ c :: cs = before ++ [c] ++ cs := by simp
      have hnext : index + 1 = (before ++ [c]).length := by simp [hindex]
      rw [hsplit]
      refine ih hnext (fun hbegins => ?_) h
      rcases hfresh' hbegins with rfl | ⟨hhere, hblank⟩
      · exact ⟨before ++ ['\n'], [], by simp, by simp, rfl⟩
      · obtain ⟨line, indent, rfl, hline, hindent⟩ := hfresh hhere
        exact ⟨line, indent ++ [c], by simp, hline, by simp [hindent, hblank]⟩

/-- Every match of a search spans what follows the head of a line. -/
theorem exists_of_mem_inLines {m : Match} (h : m ∈ p.inLines text) :
    ∃ line indent taken rest, IsHead text line indent (taken ++ rest) ∧
      p.Spans taken rest m.groups ∧ m.start = ⟨(line ++ indent).length, taken ++ rest⟩ ∧
        m.stop = ⟨(line ++ indent ++ taken).length, rest⟩ := by
  have hstart : true = true → ∃ line indent : List Char, [] = line ++ indent ∧
      line.getLast?.all (· == '\n') = true ∧ indent.all isBlank = true :=
    fun _ => ⟨[], [], rfl, rfl, rfl⟩
  exact exists_of_mem_inLinesFrom_head List.length_nil.symm hstart h

/-! ## Matches that are not missed -/

variable {m : Match} {line indent : List Char}

/-- At the beginning of a line, the blanks are passed over and the match is taken. -/
lemma mem_inLinesFrom_indent (hindent : indent.all isBlank = true)
    (hrest : rest.head?.any (!isBlank ·) = true)
    (hmatch : p.matchAt? ⟨index + indent.length, rest⟩ = some m) :
    m ∈ p.inLinesFrom index true 0 (indent ++ rest) := by
  induction indent generalizing index with
  | nil =>
    cases rest with
    | nil => cases hrest
    | cons c cs =>
      have hblank : isBlank c = false := by simpa using hrest
      have hhere : p.matchAt? ⟨index, c :: cs⟩ = some m := hmatch
      rw [List.nil_append, inLinesFrom, if_neg (Nat.lt_irrefl 0), if_neg (by simp [hblank]),
        if_pos rfl, hhere]
      exact List.mem_cons_self
  | cons c cs ih =>
    obtain ⟨hc, hcs⟩ := Bool.and_eq_true_iff.mp (List.all_cons.symm.trans hindent)
    have hindex : index + (c :: cs).length = index + 1 + cs.length := by
      rw [List.length_cons]
      omega
    rw [List.cons_append, inLinesFrom, if_neg (Nat.lt_irrefl 0), if_pos hc, Bool.true_or]
    exact ih hcs (hindex ▸ hmatch)

lemma mem_inLinesFrom_or_crossed {skip : Nat} {fresh : Bool}
    (hline : line.getLast?.all (· == '\n') = true) (hindent : indent.all isBlank = true)
    (hrest : rest.head?.any (!isBlank ·) = true) (hskip : skip ≤ line.length)
    (hfresh : line = [] → fresh = true)
    (hmatch : p.matchAt? ⟨index + line.length + indent.length, rest⟩ = some m) :
    m ∈ p.inLinesFrom index fresh skip (line ++ indent ++ rest) ∨
      ∃ other ∈ p.inLinesFrom index fresh skip (line ++ indent ++ rest),
        other.start.index < index + line.length ∧ index + line.length < other.stop.index := by
  induction line generalizing index skip fresh with
  | nil =>
    obtain rfl : skip = 0 := Nat.le_zero.mp hskip
    rw [hfresh rfl]
    exact .inl (mem_inLinesFrom_indent hindent hrest hmatch)
  | cons c cs ih =>
    have hcs : cs.getLast?.all (· == '\n') = true := by
      cases cs with
      | nil => rfl
      | cons d ds => rwa [List.getLast?_cons_cons] at hline
    -- a line end is a blank, so the last character of the line begins no match
    have hlast : cs = [] → c = '\n' := by
      rintro rfl
      simpa using hline
    have hindex : index + (c :: cs).length = index + 1 + cs.length := by
      rw [List.length_cons]
      omega
    rw [List.length_cons] at hskip
    rw [hindex] at hmatch ⊢
    rw [List.cons_append, List.cons_append, inLinesFrom]
    split
    · exact ih hcs (by omega) (fun h => by simp [hlast h]) hmatch
    · split
      · exact ih hcs (Nat.zero_le _) (fun h => by simp [hlast h]) hmatch
      · next hblank =>
        have hne : cs ≠ [] := by
          intro h
          rw [hlast h] at hblank
          exact hblank (by decide)
        have hfalse : cs = [] → false = true := fun h => absurd h hne
        split
        · next found hfound =>
          obtain ⟨taken, more, htext, -, hstart, hstop⟩ :=
            exists_of_matchAt? (Option.ite_none_right_eq_some.mp hfound).2
          have hlength : found.length = taken.length := by
            rw [Match.length, hstart, hstop]
            exact Nat.add_sub_cancel_left _ _
          by_cases hover : found.length - 1 ≤ cs.length
          · rcases ih hcs hover hfalse hmatch with hm | ⟨other, hother, hcrossed⟩
            · exact .inl (List.mem_cons_of_mem _ hm)
            · exact .inr ⟨other, List.mem_cons_of_mem _ hother, hcrossed⟩
          · refine .inr ⟨found, List.mem_cons_self, ?_, ?_⟩
            · rw [hstart]
              show index < index + 1 + cs.length
              omega
            · rw [hstop]
              show index + 1 + cs.length < index + taken.length
              omega
        · exact ih hcs (Nat.zero_le _) hfalse hmatch

/-- A search finds the match at the head of a line, unless an earlier match goes over the beginning
of that line. -/
theorem mem_inLines_or_crossed (hhead : IsHead text line indent rest)
    (hmatch : p.matchAt? ⟨(line ++ indent).length, rest⟩ = some m) :
    m ∈ p.inLines text ∨
      ∃ other ∈ p.inLines text, other.start.index < line.length ∧
        line.length < other.stop.index := by
  have hindex : 0 + line.length + indent.length = (line ++ indent).length := by
    rw [List.length_append]
    omega
  rw [hhead.text_eq, inLines]
  rw [← hindex] at hmatch
  have h := mem_inLinesFrom_or_crossed hhead.line hhead.indent hhead.begins (Nat.zero_le _)
    (fun _ => rfl) hmatch
  rwa [Nat.zero_add] at h

end Pattern

end DirectoryNotes
