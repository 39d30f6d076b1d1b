/-!
# Text as a list of characters

The plain operations that every other module shares: cutting a text at a character, its lines,
trimming, and looking for one text in another. They work on `List Char`, where induction is direct;
the versions on `String` are named in `DirectoryNotes.Text` and only convert.

* `pieces`: the parts between the occurrences of a separator;
* `lines`: the lines of a text, without their ends;
* `trimBy`: what is left when a class of characters is cut off both ends;
* `occursIn`: one text stands somewhere in another.
-/

namespace DirectoryNotes.Text

/-! ## Cutting -/

/-- The parts of a text between the occurrences of `sep`; there is always at least one part. -/
def pieces (sep : Char) : List Char → List (List Char)
  | [] => [[]]
  | c :: cs =>
    if c = sep then [] :: pieces sep cs
    else
      match pieces sep cs with
      | [] => [[c]]
      | p :: ps => (c :: p) :: ps

theorem pieces_ne_nil (sep : Char) (s : List Char) : pieces sep s ≠ [] := by
  cases s with
  | nil => simp [pieces]
  | cons c cs =>
    unfold pieces
    split
    · simp
    · split <;> simp

/-- A line whose end was a line feed also loses one carriage return. -/
def dropCarriageReturn (line : List Char) : List Char :=
  if line.getLast? = some '\r' then line.dropLast else line

/-- The lines of a text. A line feed ends a line, a carriage return before it belongs to the end,
and what follows the last line feed is a line only when it is not empty. -/
def lines (s : List Char) : List (List Char) :=
  let parts := pieces '\n' s
  let last := parts.getLast?.getD []
  parts.dropLast.map dropCarriageReturn ++ (if last = [] then [] else [last])

/-! ## Trimming -/

/-- Cuts characters of the class off the end. -/
def trimEndBy (p : Char → Bool) (s : List Char) : List Char :=
  (s.reverse.dropWhile p).reverse

/-- Cuts characters of the class off both ends. -/
def trimBy (p : Char → Bool) (s : List Char) : List Char :=
  trimEndBy p (s.dropWhile p)

/-- Removes `start` from the front as often as it stands there. -/
def dropRepeated (start s : List Char) : List Char :=
  if _h : start ≠ [] ∧ start.isPrefixOf s then dropRepeated start (s.drop start.length) else s
termination_by s.length
decreasing_by
  obtain ⟨hne, hpre⟩ := _h
  have hle := (List.isPrefixOf_iff_prefix.mp hpre).length_le
  have hpos := List.length_pos_iff.mpr hne
  simp only [List.length_drop]
  omega

/-! ## Searching -/

/-- Whether `needle` stands somewhere in the text. -/
def occursIn (needle : List Char) : List Char → Bool
  | [] => needle.isEmpty
  | c :: cs => needle.isPrefixOf (c :: cs) || occursIn needle cs

end DirectoryNotes.Text
