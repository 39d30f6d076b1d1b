import DirectoryNotes.Proofs.Document.Write
import DirectoryNotes.Proofs.FileTree.RealPath

/-!
# Storing files

Files are made or written over below a directory, and the directories above them are made where they
were missing. Nothing is taken away, so every path leads where it led:

* `FileTree.Stores`: how the trees before and after compare;
* `Stores.isProject`: the project is still one;
* `Stores.file_iff`: a file that was not stored is the one that was there;
* `readText_of_writeText`: a text that was written is read back, whatever links lead to the file.
-/

namespace DirectoryNotes

open FileTree

namespace FileTree

variable {t t' : FileTree} {root : Path} {l m w : Location} {W : List Location}

/-- A tree after files were stored at names below a directory. -/
structure Stores (t t' : FileTree) (l : Location) (W : List Location) : Prop where
  workingDirectory : t'.workingDirectory = t.workingDirectory
  wellFormed : t'.WellFormed
  /-- A file is stored where there was nothing or a file. -/
  vacant : ∀ w ∈ W, t.Vacant (l ++ w)
  stored : ∀ w ∈ W, ∃ bytes seconds, t'.entryAt? (l ++ w) = some (.file bytes seconds)
  /-- Above it there was a directory, or nothing. -/
  above : ∀ w ∈ W, ∀ m, m <+: l ++ w → m ≠ l ++ w →
    t.entryAt? m = none ∨ t.entryAt? m = some .directory
  /-- Everything else is as it was. -/
  elsewhere : ∀ m, (∀ w ∈ W, ¬m <+: l ++ w) → t'.entryAt? m = t.entryAt? m

/-- Files are stored at plain names. -/
lemma Stores.isPlainName (h : t.Stores t' l W) (hw : w ∈ W) : ∀ n ∈ w, IsPlainName n := by
  intro n hn
  obtain ⟨bytes, seconds, hstored⟩ := h.stored w hw
  exact (h.wellFormed.isEntryName hstored n (List.mem_append_right _ hn)).toIsPlainName

lemma Stores.directory_above (h : t.Stores t' l W) (hw : w ∈ W) (hm : m <+: l ++ w)
    (hne : m ≠ l ++ w) : t'.entryAt? m = some .directory := by
  obtain ⟨bytes, seconds, hstored⟩ := h.stored w hw
  obtain ⟨more, hmore⟩ := hm
  rw [← hmore] at hstored hne
  exact h.wellFormed.above (by simpa using hne) hstored

/-- What stands at a location after files were stored: what stood there, a file, or a directory. -/
lemma Stores.cases (h : t.Stores t' l W) (m : Location) :
    t'.entryAt? m = t.entryAt? m ∨
    (∃ w ∈ W, m = l ++ w) ∨
    (t.entryAt? m = none ∨ t.entryAt? m = some .directory) ∧ t'.entryAt? m = some .directory := by
  by_cases hfront : ∃ w ∈ W, m <+: l ++ w
  · obtain ⟨w, hw, hm⟩ := hfront
    by_cases heq : m = l ++ w
    · exact .inr (.inl ⟨w, hw, heq⟩)
    · exact .inr (.inr ⟨h.above w hw m hm heq, h.directory_above hw hm heq⟩)
  · exact .inl (h.elsewhere m fun w hw hm => hfront ⟨w, hw, hm⟩)

/-- Storing files takes no directory away and makes no link. -/
lemma Stores.keepsWays (h : t.Stores t' l W) : KeepsWays t t' where
  workingDirectory := h.workingDirectory
  directory m hm := by
    rcases h.cases m with heq | ⟨w, hw, rfl⟩ | ⟨-, hdir⟩
    · rw [heq, hm]
    · exact absurd hm (h.vacant w hw).no_directory
    · exact hdir
  link m target := by
    rcases h.cases m with heq | ⟨w, hw, rfl⟩ | ⟨hold, hdir⟩
    · rw [heq]
    · obtain ⟨bytes, seconds, hstored⟩ := h.stored w hw
      simp [hstored, (h.vacant w hw).no_link target]
    · rcases hold with hold | hold <;> simp [hold, hdir]

lemma Stores.isProject (h : t.Stores t' l W) (ht : t.IsProject root l) : t'.IsProject root l :=
  ⟨h.wellFormed, h.keepsWays.find_directory ht.root, h.keepsWays.linkFreeBelow ht.linkFree⟩

/-- A file that was not stored is the one that was there. -/
lemma Stores.file_iff (h : t.Stores t' l W) (hm : ∀ w ∈ W, m ≠ l ++ w) {bytes : ByteArray}
    {seconds : Int64} : t'.entryAt? m = some (.file bytes seconds) ↔
      t.entryAt? m = some (.file bytes seconds) := by
  rcases h.cases m with heq | ⟨w, hw, heq⟩ | ⟨hold, hdir⟩
  · rw [heq]
  · exact absurd heq (hm w hw)
  · rcases hold with hold | hold <;> simp [hold, hdir]

/-- Putting one file into a directory stores it. -/
lemma stores_put {name : String} {bytes : ByteArray} {seconds : Int64} (ht : t.WellFormed)
    (hl : t.entryAt? l = some .directory) (hname : IsEntryName name)
    (hvacant : t.Vacant (l ++ [name])) :
    t.Stores (t.put (l ++ [name]) (.file bytes seconds)) l [[name]] where
  workingDirectory := rfl
  wellFormed := ht.put_file hl hname hvacant.no_directory
  vacant w hw := by
    obtain rfl := List.mem_singleton.mp hw
    exact hvacant
  stored w hw := by
    obtain rfl := List.mem_singleton.mp hw
    exact ⟨bytes, seconds, by rw [entryAt?_put (by simp), if_pos rfl]⟩
  above w hw m hm hne := by
    obtain rfl := List.mem_singleton.mp hw
    right
    have hfront : m <+: l := (List.prefix_concat_iff.mp hm).resolve_left hne
    obtain ⟨more, rfl⟩ := hfront
    by_cases hmore : more = []
    · simpa [hmore] using hl
    · exact ht.above hmore hl
  elsewhere m hm := by
    have hne : m ≠ l ++ [name] := fun heq => hm [name] (by simp) (heq ▸ List.prefix_refl _)
    rw [entryAt?_put (by simp), if_neg hne]

/-! ## Reading what was written -/

/-- Writing puts a file where the path leads, where neither a directory nor a link stands. -/
lemma exists_put_of_write {p : Path} {bytes : ByteArray} (ht : t.WellFormed)
    (h : t.write p bytes = .ok t') : ∃ m, t.locate p = .ok m ∧ m ≠ [] ∧ t.Vacant m ∧
      t' = t.put m (.file bytes t.clock) := by
  unfold write at h
  unfold locate
  cases hbegin : t.begin p with
  | error reason =>
    rw [hbegin] at h
    cases h
  | ok begun =>
    obtain ⟨start, names⟩ := begun
    simp only [hbegin, bind, Except.bind] at h ⊢
    cases hlast : names.getLast?.filter isName with
    | none =>
      rw [hlast] at h
      dsimp only at h
      split at h <;> cases h
    | some name =>
      simp only [hlast] at h
      obtain ⟨first, rest, rfl⟩ : ∃ first rest, names = first :: rest := by
        refine List.exists_cons_of_ne_nil ?_
        rintro rfl
        cases hlast
      cases hwalk : t.walk linkLimit start (first :: rest) with
      | error reason =>
        rw [hwalk] at h
        cases h
      | ok m =>
        -- the first name leads on from a directory, so none of them ends at a link
        have hstart := walk_cons_ok hwalk
        have hlink : ∀ target, t.entryAt? m ≠ some (.link target) := fun target =>
          not_link_of_walk ht (by simp [hstart]) hwalk
        simp only [hwalk] at h
        split at h
        · cases h
        · next hfree =>
          refine ⟨m, rfl, ?_, ⟨hfree, hlink⟩, (Except.ok.inj h).symm⟩
          rintro rfl
          exact hfree (entryAt?_nil t)

/-- A text that was written is read back. -/
lemma readText_of_writeText {p : Path} {text : String} (ht : t.WellFormed)
    (h : t.writeText p text = .ok t') : t'.readText p = .ok text := by
  obtain ⟨m, hlocate, hne, hvacant, rfl⟩ := exists_put_of_write ht h
  have hfile : (t.put m (.file text.toUTF8 t.clock)).entryAt? m =
      some (.file text.toUTF8 t.clock) := by
    rw [entryAt?_put hne, if_pos rfl]
  have hfind := find_eq_ok_iff.mpr ⟨(hvacant.keepsWays_put hne _ _).locate hlocate, hfile⟩
  rw [readText_of_find hfind, Document.fromUTF8?_toUTF8]

end FileTree

end DirectoryNotes
