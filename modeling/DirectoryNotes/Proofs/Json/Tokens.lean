import DirectoryNotes.Proofs.Json.Grammar
import Mathlib.Data.List.TakeWhile
import Mathlib.Tactic.Lemma

/-!
# The tokens of a text

Each part of a text is cut into its tokens, whatever blanks stand between them:

* `Scans`: characters that are cut into given tokens, wherever they stand and whatever follows, as long
  as no word or number goes on in it;
* `number?_of_isNumber`: a number stands for the value that it is written for;
* `run_of_isSpelled`: the units of what stands between quotes;
* `scansApart_gap`, `scans_number`, `scansApart_text`: blanks, numbers and texts.
-/

namespace DirectoryNotes.Json

open ScanState

variable {c : Char} {cs ds rest tail : List Char} {state next : ScanState} {ts us : List Token}
  {v : Json}

/-! ## Steps -/

lemma run_cons_eq (state : ScanState) (c : Char) (cs : List Char) :
    state.run (c :: cs) =
      (state.step c).bind fun made => (made.2.run cs).map (made.1 ++ ·) := by
  rw [run]
  cases state.step c with
  | none => rfl
  | some made => cases h : made.2.run cs <;> simp [h]

lemma run_cons (h : state.step c = some (ts, next)) :
    state.run (c :: cs) = (next.run cs).map (ts ++ ·) := by
  rw [run_cons_eq, h, Option.bind_some]

lemma map_nil_append (o : Option (List Token)) : o.map ([] ++ ·) = o := by
  cases o <;> rfl

lemma run_cons_silent (h : state.step c = some ([], next)) : state.run (c :: cs) = next.run cs := by
  rw [run_cons h, map_nil_append]

/-- No word and no number goes on in what follows. -/
def IsDelimited (rest : List Char) : Prop :=
  ∀ c ∈ rest.head?, c.isLower = false ∧ isNumberChar c = false

lemma isDelimited_cons (h : c.isLower = false ∧ isNumberChar c = false) : IsDelimited (c :: rest) := by
  simpa [IsDelimited] using h

/-- Characters that are cut into these tokens. -/
def Scans (cs : List Char) (ts : List Token) : Prop :=
  ∀ rest, IsDelimited rest → between.run (cs ++ rest) = (between.run rest).map (ts ++ ·)

/-- Characters that are cut into these tokens, whatever follows. -/
def ScansApart (cs : List Char) (ts : List Token) : Prop :=
  ∀ rest, between.run (cs ++ rest) = (between.run rest).map (ts ++ ·)

lemma ScansApart.scans (h : ScansApart cs ts) : Scans cs ts := fun rest _ => h rest

lemma ScansApart.append {ds : List Char} (h : ScansApart cs ts) (h' : Scans ds us) :
    Scans (cs ++ ds) (ts ++ us) := by
  intro rest hrest
  rw [List.append_assoc, h, h' rest hrest, Option.map_map]
  simp only [Function.comp_def, List.append_assoc]

lemma ScansApart.append_apart {ds : List Char} (h : ScansApart cs ts) (h' : ScansApart ds us) :
    ScansApart (cs ++ ds) (ts ++ us) := by
  intro rest
  rw [List.append_assoc, h, h', Option.map_map]
  simp only [Function.comp_def, List.append_assoc]

/-- After something that ends where the next begins, all is well whatever comes then. -/
lemma Scans.append_apart {ds : List Char} (h : Scans cs ts) (h' : ScansApart ds us)
    (hds : ∀ rest, IsDelimited (ds ++ rest)) : ScansApart (cs ++ ds) (ts ++ us) := by
  intro rest
  rw [List.append_assoc, h _ (hds rest), h', Option.map_map]
  simp only [Function.comp_def, List.append_assoc]

/-- One character that is a token. -/
lemma scansApart_mark {token : Token} (h : start c = some ([token], between)) :
    ScansApart [c] [token] :=
  fun _ => run_cons h

/-- Blanks are no tokens. -/
lemma scansApart_gap (h : IsGap cs) : ScansApart cs [] := by
  intro rest
  rw [map_nil_append]
  induction cs with
  | nil => rfl
  | cons c cs ih =>
    have hstep : between.step c = some ([], between) := by
      rcases h c List.mem_cons_self with rfl | rfl | rfl | rfl <;> rfl
    rw [List.cons_append, run_cons_silent hstep, ih fun d hd => h d (List.mem_cons_of_mem _ hd)]

lemma isDelimited_gap (h : IsGap cs) (hrest : IsDelimited rest) : IsDelimited (cs ++ rest) := by
  cases cs with
  | nil => exact hrest
  | cons c cs =>
    refine isDelimited_cons ?_
    rcases h c List.mem_cons_self with rfl | rfl | rfl | rfl <;> decide

/-- Blanks behind something change nothing. -/
lemma Scans.append_gap (h : Scans cs ts) (hds : IsGap ds) : Scans (cs ++ ds) ts := by
  intro rest hrest
  rw [List.append_assoc, h _ (isDelimited_gap hds hrest), scansApart_gap hds, map_nil_append]

lemma ScansApart.append_gap (h : ScansApart cs ts) (hds : IsGap ds) : ScansApart (cs ++ ds) ts := by
  intro rest
  rw [List.append_assoc, h, scansApart_gap hds, map_nil_append]

/-! ## Words -/

lemma run_word {letters : List Char} (h : ∀ c ∈ cs, c.isLower = true) :
    (word letters).run (cs ++ rest) = (word (cs.reverse ++ letters)).run rest := by
  induction cs generalizing letters with
  | nil => rfl
  | cons c cs ih =>
    have hstep : (word letters).step c = some ([], word (c :: letters)) := by
      simp only [step, h c List.mem_cons_self, if_true]
    rw [List.cons_append, run_cons_silent hstep, ih fun d hd => h d (List.mem_cons_of_mem _ hd)]
    simp

/-- A word ends where no letter follows. -/
lemma run_word_end {letters : List Char} (h : word? letters.reverse = some v)
    (hrest : IsDelimited rest) :
    (word letters).run rest = (between.run rest).map ([.value v] ++ ·) := by
  cases rest with
  | nil => simp [run, finish, h]
  | cons c cs =>
    obtain ⟨hlower, -⟩ := hrest c (by simp)
    rw [run_cons_eq, run_cons_eq]
    simp only [step, hlower, Bool.false_eq_true, if_false, h]
    cases start c with
    | none => rfl
    | some found => simp [Function.comp_def]

lemma scans_word (h : cs.all Char.isLower = true)
    (hv : word? (c :: cs) = some v) (hstart : start c = some ([], word [c])) :
    Scans (c :: cs) [.value v] := by
  intro rest hrest
  rw [List.cons_append, run_cons_silent (show between.step c = some ([], word [c]) from hstart),
    run_word (List.all_eq_true.mp h)]
  exact run_word_end (by simpa using hv) hrest

/-! ## Numbers -/

/-- Digits end where something else begins. -/
lemma takeWhile_digits (hds : IsDigits ds) (htail : ∀ c ∈ tail.head?, c.isDigit = false) :
    (ds ++ tail).takeWhile Char.isDigit = ds ∧ (ds ++ tail).dropWhile Char.isDigit = tail := by
  have hempty : tail.takeWhile Char.isDigit = [] ∧ tail.dropWhile Char.isDigit = tail := by
    cases tail with
    | nil => exact ⟨rfl, rfl⟩
    | cons c rest =>
      have hc : c.isDigit = false := htail c (by simp)
      simp [hc]
  rw [List.takeWhile_append_of_pos hds.all, List.dropWhile_append_of_pos hds.all, hempty.1, hempty.2,
    List.append_nil]
  exact ⟨rfl, rfl⟩

lemma IsExponentPart.head?_not_digit (h : IsExponentPart cs) :
    ∀ c ∈ cs.head?, c.isDigit = false ∧ c ≠ '.' := by
  cases h with
  | nil => simp
  | mark he _ _ =>
    intro c hc
    obtain rfl : _ = c := by simpa using hc
    rcases he with rfl | rfl <;> decide

lemma IsExponentPart.isExponent (h : IsExponentPart cs) : isExponent cs = true := by
  cases h with
  | nil => rfl
  | @mark e sign ds he hsign hds =>
    have hmark : (e == 'e' || e == 'E') = true := by rcases he with rfl | rfl <;> rfl
    have hdigits : (!ds.isEmpty && ds.all Char.isDigit) = true := by
      simpa [hds.ne_nil] using hds.all
    rw [Bool.and_eq_true] at hdigits
    rcases hsign with rfl | rfl | rfl
    · -- a digit is no sign
      obtain ⟨d, more, rfl⟩ := List.exists_cons_of_ne_nil hds.ne_nil
      have hd := hds.all d List.mem_cons_self
      simp only [List.cons_append, List.nil_append, Json.isExponent, hmark, Bool.true_and]
      split
      · next heq =>
        rw [(List.cons.inj heq).1] at hd
        exact absurd hd (by decide)
      · next heq =>
        rw [(List.cons.inj heq).1] at hd
        exact absurd hd (by decide)
      · simpa using hdigits
    · simpa [Json.isExponent, hmark] using hdigits
    · simpa [Json.isExponent, hmark] using hdigits

/-- What follows the integer part of a number. -/
lemma isFraction_append {point power : List Char} (hpoint : IsFractionPart point)
    (hpower : IsExponentPart power) : isFraction (point ++ power) = true := by
  cases hpoint with
  | nil =>
    rw [List.nil_append]
    unfold isFraction
    split
    · exact absurd rfl (hpower.head?_not_digit '.' (by simp)).2
    · exact hpower.isExponent
  | @point ds hds =>
    obtain ⟨htake, hdrop⟩ := takeWhile_digits hds fun c hc => (hpower.head?_not_digit c hc).1
    rw [List.cons_append, isFraction, htake, hdrop, hpower.isExponent]
    simpa using hds.ne_nil

/-- What is read of an integer part and what follows it. -/
lemma unsigned?_append {negative : Bool} (hds : IsWhole ds)
    (hhead : ∀ c ∈ tail.head?, c.isDigit = false) (htail : isFraction tail = true) :
    unsigned? negative (ds ++ tail) =
      if tail = [] ∧ !(negative && Nat.ofDigitChars 10 ds 0 == 0) then
        some (.integer (if negative then -(Nat.ofDigitChars 10 ds 0 : Int)
          else Nat.ofDigitChars 10 ds 0))
      else some (.decimal (if negative then '-' :: (ds ++ tail) else ds ++ tail)) := by
  obtain ⟨htake, hdrop⟩ := takeWhile_digits hds.toIsDigits hhead
  have hplain : ¬(ds = [] ∨ (ds.head? = some '0' ∧ ds.length > 1) ∨ !isFraction tail) := by
    rintro (hnil | ⟨hzero, hlong⟩ | hfraction)
    · exact hds.ne_nil hnil
    · rw [hds.zero_alone hzero] at hlong
      exact absurd hlong (by decide)
    · rw [htail] at hfraction
      cases hfraction
  unfold unsigned?
  dsimp only
  rw [htake, hdrop, if_neg hplain]

lemma IsDigits.ne_minus (hds : IsDigits ds) (chars : List Char) : ds ++ tail ≠ '-' :: chars := by
  obtain ⟨d, more, rfl⟩ := List.exists_cons_of_ne_nil hds.ne_nil
  intro heq
  have hd := hds.all d List.mem_cons_self
  rw [List.cons_append, List.cons.injEq] at heq
  rw [heq.1] at hd
  exact absurd hd (by decide)

lemma number?_append (hds : IsDigits ds) : number? (ds ++ tail) = unsigned? false (ds ++ tail) := by
  unfold number?
  split
  · next chars heq => exact absurd heq (hds.ne_minus chars)
  · rfl

/-- A number stands for the value that it is written for. -/
theorem number?_of_isNumber (h : IsNumber cs v) : number? cs = some v := by
  have hnil : ∀ c ∈ ([] : List Char).head?, c.isDigit = false := by simp
  cases h with
  | natural hds =>
    have hwhole : unsigned? false (_ ++ []) = _ := unsigned?_append hds hnil rfl
    rw [← number?_append hds.toIsDigits, List.append_nil] at hwhole
    simpa using hwhole
  | negative hds hpos =>
    have hwhole : unsigned? true (_ ++ []) = _ := unsigned?_append hds hnil rfl
    rw [List.append_nil] at hwhole
    rw [number?, hwhole]
    simp [Nat.ne_of_gt hpos]
  | negativeZero => rfl
  | @decimal sign ds point power hsign hds hpoint hpower hne =>
    have hhead : ∀ c ∈ (point ++ power).head?, c.isDigit = false := by
      cases hpoint with
      | nil => exact fun c hc => (hpower.head?_not_digit c hc).1
      | point _ =>
        intro c hc
        obtain rfl : '.' = c := by simpa using hc
        rfl
    have hwhole := fun negative =>
      @unsigned?_append ds (point ++ power) negative hds hhead (isFraction_append hpoint hpower)
    simp only [hne, false_and, if_false] at hwhole
    rcases hsign with rfl | rfl
    · rw [List.nil_append, List.append_assoc, number?_append hds.toIsDigits, hwhole]
      rfl
    · rw [List.append_assoc, List.append_assoc, List.singleton_append, number?, hwhole]
      rfl

lemma run_number {chars : List Char} (h : ∀ c ∈ cs, isNumberChar c = true) :
    (number chars).run (cs ++ rest) = (number (cs.reverse ++ chars)).run rest := by
  induction cs generalizing chars with
  | nil => rfl
  | cons c cs ih =>
    have hstep : (number chars).step c = some ([], number (c :: chars)) := by
      simp only [step, h c List.mem_cons_self, if_true]
    rw [List.cons_append, run_cons_silent hstep, ih fun d hd => h d (List.mem_cons_of_mem _ hd)]
    simp

/-- A number ends where no character of a number follows. -/
lemma run_number_end {chars : List Char} (h : number? chars.reverse = some v)
    (hrest : IsDelimited rest) :
    (number chars).run rest = (between.run rest).map ([.value v] ++ ·) := by
  cases rest with
  | nil => simp [run, finish, h]
  | cons c cs =>
    obtain ⟨-, hnumber⟩ := hrest c (by simp)
    rw [run_cons_eq, run_cons_eq]
    simp only [step, hnumber, Bool.false_eq_true, if_false, h]
    cases start c with
    | none => rfl
    | some found => simp [Function.comp_def]

lemma isNumberChar_of_isDigits (h : IsDigits cs) : ∀ c ∈ cs, isNumberChar c = true :=
  fun c hc => by simp [isNumberChar, h.all c hc]

lemma isNumberChar_of_isExponentPart (h : IsExponentPart cs) : ∀ c ∈ cs, isNumberChar c = true := by
  cases h with
  | nil => simp
  | mark he hsign hds =>
    intro c hc
    simp only [List.cons_append, List.mem_cons, List.mem_append] at hc
    rcases hc with rfl | hc | hc
    · rcases he with rfl | rfl <;> rfl
    · rcases hsign with rfl | rfl | rfl
      · cases hc
      · obtain rfl := List.mem_singleton.mp hc
        rfl
      · obtain rfl := List.mem_singleton.mp hc
        rfl
    · exact isNumberChar_of_isDigits hds c hc

lemma isNumberChar_of_isFractionPart (h : IsFractionPart cs) : ∀ c ∈ cs, isNumberChar c = true := by
  cases h with
  | nil => simp
  | point hds =>
    intro c hc
    rcases List.mem_cons.mp hc with rfl | hc
    · rfl
    · exact isNumberChar_of_isDigits hds c hc

/-- A number goes on in all its characters. -/
lemma isNumberChar_of_isNumber (h : IsNumber cs v) : ∀ c ∈ cs, isNumberChar c = true := by
  cases h with
  | natural hds => exact isNumberChar_of_isDigits hds.toIsDigits
  | negative hds _ =>
    intro c hc
    rcases List.mem_cons.mp hc with rfl | hc
    · rfl
    · exact isNumberChar_of_isDigits hds.toIsDigits c hc
  | negativeZero =>
    intro c hc
    rcases List.mem_cons.mp hc with rfl | hc
    · rfl
    · rw [List.mem_singleton.mp hc]
      rfl
  | decimal hsign hds hpoint hpower _ =>
    intro c hc
    simp only [List.mem_append] at hc
    rcases hc with ((hc | hc) | hc) | hc
    · rcases hsign with rfl | rfl
      · cases hc
      · obtain rfl := List.mem_singleton.mp hc
        rfl
    · exact isNumberChar_of_isDigits hds.toIsDigits c hc
    · exact isNumberChar_of_isFractionPart hpoint c hc
    · exact isNumberChar_of_isExponentPart hpower c hc

/-- A number begins with a digit or a sign. -/
lemma exists_cons_of_isNumber (h : IsNumber cs v) :
    ∃ d ds, cs = d :: ds ∧ (d.isDigit = true ∨ d = '-') := by
  have hfirst : ∀ {ds : List Char}, IsDigits ds → ∃ d more, ds = d :: more ∧ d.isDigit = true := by
    intro ds hds
    obtain ⟨d, more, rfl⟩ := List.exists_cons_of_ne_nil hds.ne_nil
    exact ⟨d, more, rfl, hds.all d List.mem_cons_self⟩
  cases h with
  | natural hds =>
    obtain ⟨d, more, rfl, hd⟩ := hfirst hds.toIsDigits
    exact ⟨d, more, rfl, .inl hd⟩
  | negative => exact ⟨'-', _, rfl, .inr rfl⟩
  | negativeZero => exact ⟨'-', _, rfl, .inr rfl⟩
  | decimal hsign hds _ _ _ =>
    rcases hsign with rfl | rfl
    · obtain ⟨d, more, rfl, hd⟩ := hfirst hds.toIsDigits
      exact ⟨d, _, rfl, .inl hd⟩
    · exact ⟨'-', _, rfl, .inr rfl⟩

lemma start_of_number (h : c.isDigit = true ∨ c = '-') : start c = some ([], number [c]) := by
  have hne : ∀ d : Char, ¬(d.isDigit = true ∨ d = '-') → c ≠ d := fun d hd heq => hd (heq ▸ h)
  simp [start, hne ' ' (by decide), hne '\n' (by decide), hne '\t' (by decide),
    hne '\r' (by decide), hne '[' (by decide), hne ']' (by decide), hne '\x7b' (by decide),
    hne '\x7d' (by decide), hne ',' (by decide), hne ':' (by decide), hne '\x22' (by decide), h]

lemma scans_number (h : IsNumber cs v) : Scans cs [.value v] := by
  obtain ⟨c, ds, rfl, hfirst⟩ := exists_cons_of_isNumber h
  have hall := isNumberChar_of_isNumber h
  intro rest hrest
  have hstep : between.step c = some ([], number [c]) := start_of_number hfirst
  rw [List.cons_append, run_cons_silent hstep,
    run_number fun d hd => hall d (List.mem_cons_of_mem _ hd)]
  exact run_number_end (by simpa using number?_of_isNumber h) hrest

/-! ## Texts -/

/-- The units of what stands between quotes, in reverse. -/
lemma run_of_isSpelled {units seen : List Nat} (h : IsSpelled cs units) (rest : List Char) :
    (ScanState.text seen).run (cs ++ rest) =
      (ScanState.text (units.reverse ++ seen)).run rest := by
  have hback : ∀ seen, (ScanState.text seen).step '\\' = some ([], escape seen) := fun _ => rfl
  induction h generalizing seen with
  | nil => rfl
  | @plain c cs units hquote hplain hlarge _ ih =>
    have hstep : (ScanState.text seen).step c = some ([], .text (c.toNat :: seen)) := by
      simp only [step, hquote, hplain, Nat.not_lt.mpr hlarge, if_false]
    rw [List.cons_append, run_cons_silent hstep, ih]
    simp
  | @letter c n cs units hletter _ ih =>
    have hu : c ≠ 'u' := by
      rintro rfl
      cases hletter
    have hstep : (escape seen).step c = some ([], .text (n :: seen)) := by
      simp only [step, hu, if_false, hletter, Option.map_some]
    rw [List.cons_append, List.cons_append, run_cons_silent (hback seen), run_cons_silent hstep, ih]
    simp
  | @code a b c d i j k l cs units ha hb hc hd _ ih =>
    have hdigit : ∀ count value x m, count ≠ 3 → hexValue? x = some m →
        (unicode seen count value).step x = some ([], unicode seen (count + 1) (16 * value + m)) := by
      intro count value x m hcount hx
      simp only [step, hx, Option.map_some, hcount, if_false]
    have hlast : (unicode seen 3 (16 * (16 * (16 * 0 + i) + j) + k)).step d =
        some ([], .text ((16 * (16 * (16 * i + j) + k) + l) :: seen)) := by
      simp only [step, hd, Option.map_some, if_true, Nat.mul_zero, Nat.zero_add]
    calc (ScanState.text seen).run ('\\' :: 'u' :: a :: b :: c :: d :: cs ++ rest)
        = (escape seen).run ('u' :: a :: b :: c :: d :: (cs ++ rest)) := run_cons_silent (hback seen)
      _ = (unicode seen 0 0).run (a :: b :: c :: d :: (cs ++ rest)) := run_cons_silent rfl
      _ = (unicode seen 1 (16 * 0 + i)).run (b :: c :: d :: (cs ++ rest)) :=
          run_cons_silent (hdigit 0 0 a i (by decide) ha)
      _ = (unicode seen 2 (16 * (16 * 0 + i) + j)).run (c :: d :: (cs ++ rest)) :=
          run_cons_silent (hdigit 1 _ b j (by decide) hb)
      _ = (unicode seen 3 (16 * (16 * (16 * 0 + i) + j) + k)).run (d :: (cs ++ rest)) :=
          run_cons_silent (hdigit 2 _ c k (by decide) hc)
      _ = (ScanState.text ((16 * (16 * (16 * i + j) + k) + l) :: seen)).run (cs ++ rest) :=
          run_cons_silent hlast
      _ = (ScanState.text ((units.reverse ++ _ :: seen))).run rest := ih
      _ = (ScanState.text (((16 * (16 * (16 * i + j) + k) + l) :: units).reverse ++ seen)).run rest :=
          by simp

lemma scansApart_text {units : List Nat} (h : IsSpelled cs units) :
    ScansApart ('\x22' :: cs ++ ['\x22']) [.value (textOfUnits units.reverse)] := by
  intro rest
  have hopen : between.step '\x22' = some ([], .text []) := rfl
  have hclose : ∀ seen, (ScanState.text seen).step '\x22' =
      some ([.value (textOfUnits seen)], between) := fun _ => rfl
  rw [List.cons_append, List.cons_append, run_cons_silent hopen, List.append_assoc,
    run_of_isSpelled h, List.append_nil, List.singleton_append, run_cons (hclose _)]

end DirectoryNotes.Json
