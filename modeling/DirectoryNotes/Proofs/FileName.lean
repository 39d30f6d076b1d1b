import DirectoryNotes.FileName
import DirectoryNotes.Proofs.Path.Below
import DirectoryNotes.Proofs.Text.Case
import DirectoryNotes.Proofs.Text.Lines

/-!
# What a name tells, in one line

A file whose name is one line is described in one line, and so are its extension and its labels:

* `Path.displayName_join`: the name of an entry of a directory;
* `Path.newline_notMem_stem`, `Path.newline_notMem_extension`: the parts around its last point;
* `FileName.newline_notMem_description`, `FileName.newline_notMem_topics`: what it tells.

Whatever the name, `FileName.importance_mem` bounds the grade of the file and
`FileName.length_topics` the number of its labels.
-/

namespace DirectoryNotes

open Text

variable {name : String} {p : Path}

lemma Text.mem_of_mem_firstOccurrences {α : Type} [BEq α] {x : α} {xs : List α}
    (h : x ∈ firstOccurrences xs) : x ∈ xs := by
  have hfold : ∀ kept : List α, x ∈ xs.foldl
      (fun kept x => if kept.contains x then kept else kept ++ [x]) kept → x ∈ kept ∨ x ∈ xs := by
    clear h
    induction xs with
    | nil => exact fun kept h => .inl h
    | cons y ys ih =>
      intro kept h
      rcases ih _ h with h | h
      · dsimp only at h
        split at h
        · exact .inl h
        · rcases List.mem_append.mp h with h | h
          · exact .inl h
          · exact .inr (List.mem_singleton.mp h ▸ List.mem_cons_self)
      · exact .inr (List.mem_cons_of_mem _ h)
  exact (hfold [] h).resolve_left List.not_mem_nil

/-! ## The last part of a path -/

namespace Path

lemma fileName?_join (p : Path) (hname : IsPlainName name) :
    (p.join ⟨name⟩).fileName? = some name := by
  have hnames : ∀ n ∈ [name], IsPlainName n := by simpa using hname
  have hparts := parts_follow p hnames
  rw [follow_cons, follow_nil, List.map_singleton] at hparts
  unfold fileName?
  rw [hparts, List.getLast?_concat]

lemma displayName_join (p : Path) (hname : IsPlainName name) :
    (p.join ⟨name⟩).displayName = name := by
  unfold displayName
  rw [fileName?_join p hname, Option.getD_some]

lemma fileName?_mk (hname : IsPlainName name) : (Path.mk name).fileName? = some name := by
  have hparts : (ofNames [name]).parts = [.name name] := parts_ofNames (by simpa using hname)
  unfold fileName?
  rw [← ofNames_singleton, hparts]
  rfl

/-- The parts around the last point of a name stand in the name. -/
lemma splitAtPoint_subset (name : List Char) :
    (splitAtPoint name).1 ⊆ name ∧ ∀ ext ∈ (splitAtPoint name).2, ext ⊆ name := by
  have hwhole : name ⊆ name ∧ ∀ ext ∈ (none : Option (List Char)), ext ⊆ name :=
    ⟨fun c hc => hc, fun ext hext => by cases hext⟩
  unfold splitAtPoint
  dsimp only
  split
  · exact hwhole
  · next point before heq =>
    split
    · exact hwhole
    · refine ⟨?_, ?_⟩
      · intro c hc
        have hrest := List.mem_cons_of_mem point (List.mem_reverse.mp hc)
        rw [← heq] at hrest
        exact List.mem_reverse.mp (List.mem_of_mem_drop hrest)
      · intro ext hext c hc
        obtain rfl := Option.some.inj hext
        have hafter := (List.takeWhile_sublist _).subset (List.mem_reverse.mp hc)
        exact List.mem_reverse.mp hafter

lemma newline_notMem_stem (hname : p.fileName? = some name) (hline : '\n' ∉ name.toList) :
    ∀ stem ∈ p.stem?, '\n' ∉ stem.toList := by
  intro stem hstem
  unfold stem? at hstem
  rw [hname] at hstem
  obtain rfl := Option.some.inj hstem
  rw [String.toList_ofList]
  exact fun hmem => hline ((splitAtPoint_subset name.toList).1 hmem)

lemma newline_notMem_extension (hname : p.fileName? = some name) (hline : '\n' ∉ name.toList) :
    ∀ ext ∈ p.extension?, '\n' ∉ ext.toList := by
  intro ext hext
  unfold extension? at hext
  rw [hname, Option.bind_some] at hext
  obtain ⟨chars, hchars, rfl⟩ := Option.map_eq_some_iff.mp hext
  rw [String.toList_ofList]
  exact fun hmem => hline ((splitAtPoint_subset name.toList).2 chars hchars hmem)

end Path

/-! ## Descriptions -/

namespace FileName

lemma newline_notMem_extension (hname : IsPlainName name) (hline : '\n' ∉ name.toList) :
    ∀ ext ∈ extension? name, '\n' ∉ ext.toList := by
  intro ext hext
  obtain ⟨raw, hraw, rfl⟩ := Option.map_eq_some_iff.mp hext
  exact newline_notMem_lower (Path.newline_notMem_extension (Path.fileName?_mk hname) hline raw hraw)

/-- A value of a table whose values are lines is a line. -/
lemma newline_notMem_lookup {table : List (String × String)} {key value : String}
    (htable : ∀ row ∈ table, '\n' ∉ row.2.toList) (h : table.lookup key = some value) :
    '\n' ∉ value.toList := by
  obtain ⟨before, after, rfl, -⟩ := List.lookup_eq_some_iff.mp h
  exact htable (key, value) (List.mem_append_right _ List.mem_cons_self)

lemma newline_notMem_knownFiles : ∀ row ∈ knownFiles, '\n' ∉ row.2.toList := by
  simp only [knownFiles, List.forall_mem_cons]
  and_intros
  all_goals first
    | exact notMem_toList_ofList (by decide)
    | exact List.forall_mem_nil _

lemma newline_notMem_knownExtensions : ∀ row ∈ knownExtensions, '\n' ∉ row.2.toList := by
  simp only [knownExtensions, List.forall_mem_cons]
  and_intros
  all_goals first
    | exact notMem_toList_ofList (by decide)
    | exact List.forall_mem_nil _

lemma newline_notMem_topicParts : ∀ part ∈ topicParts, '\n' ∉ part.2.toList := by
  simp only [topicParts, List.forall_mem_cons]
  and_intros
  all_goals first
    | exact notMem_toList_ofList (by decide)
    | exact List.forall_mem_nil _

/-- What the name of a file tells is told in one line. -/
lemma newline_notMem_description (hname : IsPlainName name) (hline : '\n' ∉ name.toList) :
    '\n' ∉ (description name).toList := by
  have htypes : '\n' ∉ "TypeScript type declarations".toList := notMem_toList_ofList (by decide)
  have hwords : '\n' ∉ "File".toList ∧ '\n' ∉ " file".toList := by decide
  unfold description
  dsimp only
  split
  · next phrase hphrase => exact newline_notMem_lookup newline_notMem_knownFiles hphrase
  split
  · exact htypes
  split
  · exact hwords.1
  · next ext hext =>
    cases hlookup : knownExtensions.lookup ext with
    | some phrase => exact newline_notMem_lookup newline_notMem_knownExtensions hlookup
    | none =>
      rw [Option.getD_none, String.toList_append, List.mem_append, not_or]
      have hupper := newline_notMem_upper (newline_notMem_extension hname hline ext hext)
      exact ⟨hupper, hwords.2⟩

lemma newline_notMem_topics {topic : String} (h : topic ∈ topics name) : '\n' ∉ topic.toList := by
  have htests : '\n' ∉ "Test cases".toList ∧ '\n' ∉ "Unit tests".toList := by decide
  have hgeneral : '\n' ∉ "General functionality".toList := notMem_toList_ofList (by decide)
  unfold topics at h
  dsimp only at h
  split at h
  · rw [List.mem_singleton.mp h]
    split
    · exact htests.1
    · exact htests.2
  split at h
  · rw [List.mem_singleton.mp h]
    exact hgeneral
  · have hfound := mem_of_mem_firstOccurrences (List.mem_of_mem_take h)
    obtain ⟨part, hpart, rfl⟩ := List.mem_map.mp hfound
    exact newline_notMem_topicParts part (List.mem_of_mem_filter hpart)

/-! ## Grades and labels -/

/-- There are four grades of importance. -/
lemma importance_mem (name : String) : importance name ∈ ([3, 5, 7, 10] : List UInt8) := by
  unfold importance
  split
  · decide
  split
  · decide
  split
  · decide
  · decide

/-- A file has one to three labels. -/
lemma length_topics (name : String) : 1 ≤ (topics name).length ∧ (topics name).length ≤ 3 := by
  unfold topics
  dsimp only
  split
  · simp
  split
  · simp
  · next hlabels =>
    have hpos := List.length_pos_iff.mpr hlabels
    have hle := List.length_take_le topicLimit (firstOccurrences
      ((topicParts.filter fun part => contains (stem name) part.1).map (·.2)))
    exact ⟨hpos, hle⟩

end FileName

end DirectoryNotes
