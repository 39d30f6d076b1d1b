import DirectoryNotes.Document
import DirectoryNotes.Proofs.FileTree.Following

/-!
# Writing a document

A document is written as a draft and then moved into place. `write_cases` says all that can come of
it: nothing was changed, the draft was removed again, or the document stands where it should and no
draft is left. `read_eq_some_iff` says what is read there. What stays is told by `SameButDocuments`:
two trees that differ at most in the files that have the name of a document or of a draft.
-/

namespace DirectoryNotes

namespace FileTree

variable {t t' t'' : FileTree} {l m : Location} {name : String} {p : Path} {bytes : ByteArray}

/-! ## Writing below a directory -/

/-- A path continued by a name ends in the name. -/
lemma getLast?_segments_join (p : Path) (hname : IsPlainName name) :
    (segments (p.join ⟨name⟩).text).getLast?.filter isName = some name := by
  obtain ⟨before, idle, -, -, h2⟩ := segments_join_name p hname
  rw [h2]
  simp [Option.filter, isName, hname.ne_empty, hname.ne_here, hname.ne_up]

/-- A file is written where its path leads, unless a directory stands there. -/
lemma write_of_locate (hname : IsPlainName name) (hlocate : t.locate (p.join ⟨name⟩) = .ok m)
    (bytes : ByteArray) :
    t.write (p.join ⟨name⟩) bytes =
      if (t.entryAt? m).any Entry.isDirectory then .error .isDirectory
      else .ok (t.put m (.file bytes t.clock)) := by
  have hadmitted := isAdmitted_of_locate hlocate
  rw [locate_of_admitted t hadmitted] at hlocate
  unfold write
  rw [begin_of_admitted t hadmitted]
  simp only [bind, Except.bind, getLast?_segments_join p hname, hlocate]
  cases he : t.entryAt? m with
  | none => rfl
  | some e => cases e <;> rfl

lemma write_join_not_admitted (t : FileTree) (h : ¬(p.join ⟨name⟩).IsAdmitted) (bytes : ByteArray) :
    ∃ reason, t.write (p.join ⟨name⟩) bytes = .error reason := by
  obtain ⟨reason, hreason⟩ := begin_of_not_admitted h
  exact ⟨reason, by rw [write, hreason t]; rfl⟩

/-- No file is written where the path leads nowhere. -/
lemma write_of_not_located {e : FileError} (hname : IsPlainName name)
    (hlocate : t.locate (p.join ⟨name⟩) = .error e) (bytes : ByteArray) :
    ∃ reason, t.write (p.join ⟨name⟩) bytes = .error reason := by
  by_cases hadmitted : (p.join ⟨name⟩).IsAdmitted
  · rw [locate_of_admitted t hadmitted] at hlocate
    refine ⟨e, ?_⟩
    unfold write
    rw [begin_of_admitted t hadmitted]
    simp only [bind, Except.bind, getLast?_segments_join p hname, hlocate]
  · exact write_join_not_admitted t hadmitted bytes

/-- A file is written below a directory, unless a directory has its name. -/
lemma write_join (hp : t.LeadsInto p l) (hname : IsEntryName name)
    (hlink : ∀ target, t.entryAt? (l ++ [name]) ≠ some (.link target))
    (hjoin : (p.join ⟨name⟩).IsAdmitted) (bytes : ByteArray) :
    t.write (p.join ⟨name⟩) bytes =
      if (t.entryAt? (l ++ [name])).any Entry.isDirectory then .error .isDirectory
      else .ok (t.put (l ++ [name]) (.file bytes t.clock)) := by
  have hlocate := locate_join hp hname.toIsPlainName hlink hjoin
  rw [if_pos hname.size_le] at hlocate
  exact write_of_locate hname.toIsPlainName hlocate bytes

/-- The entry that a directory's path, continued by a name, names, be it a link or not. -/
lemma locateEntry_join (hp : t.LeadsInto p l) (hname : IsEntryName name)
    (hjoin : (p.join ⟨name⟩).IsAdmitted) : t.locateEntry (p.join ⟨name⟩) = .ok (l ++ [name]) := by
  have hplain := hname.toIsPlainName
  obtain ⟨before, idle, hidle, h1, h2⟩ := segments_join_name p hplain
  have hbefore := hp.walk_before hidle h1
  have hlast : (before ++ [name]).getLast?.filter isName = some name := by
    simp [Option.filter, isName, hplain.ne_empty, hplain.ne_here, hplain.ne_up]
  have hsize : ¬name.utf8ByteSize > nameLimit := Nat.not_lt.mpr hname.size_le
  unfold locateEntry
  rw [begin_of_admitted t hjoin, h2, startOf_join p hplain.isAbsolute_eq]
  simp only [bind, Except.bind, locateNamed, hlast, List.dropLast_concat, walkToDirectory, hbefore,
    hp.directory, hsize, if_false]

/-- A file that is put where neither a directory nor a link stands leaves all ways as they are. -/
lemma Vacant.keepsWays_put (h : t.Vacant l) (hl : l ≠ []) (bytes : ByteArray) (seconds : Int64) :
    KeepsWays t (t.put l (.file bytes seconds)) where
  workingDirectory := rfl
  directory m hm := by
    have hne : m ≠ l := fun heq => h.no_directory (heq ▸ hm)
    rw [entryAt?_put hl, if_neg hne, hm]
  link m target := by
    rw [entryAt?_put hl]
    by_cases heq : m = l
    · subst heq
      simp [h.no_link target]
    · rw [if_neg heq]

/-- Before the file was put there, all ways were as they are. -/
lemma Vacant.keepsWays_of_put (h : t.Vacant l) (hl : l ≠ []) (bytes : ByteArray) (seconds : Int64) :
    KeepsWays (t.put l (.file bytes seconds)) t where
  workingDirectory := rfl
  directory m hm := by
    rw [entryAt?_put hl] at hm
    split at hm
    · cases hm
    · exact hm
  link m target := ((h.keepsWays_put hl bytes seconds).link m target).symm

/-- A file or a link is moved from one name below a directory to another, unless a directory has that
name. -/
lemma moveFile_join {source target : String} {e : Entry}
    (hp : t.LeadsInto p l) (hsource : IsEntryName source)
    (htarget : IsEntryName target) (hs : (p.join ⟨source⟩).IsAdmitted)
    (ht : (p.join ⟨target⟩).IsAdmitted) (he : t.entryAt? (l ++ [source]) = some e)
    (hfree : e.isDirectory = false) :
    t.moveFile (p.join ⟨source⟩) (p.join ⟨target⟩) =
      if (t.entryAt? (l ++ [target])).any Entry.isDirectory then .error .isDirectory
      else .ok ((t.erase (l ++ [source])).put (l ++ [target]) e) := by
  unfold moveFile
  rw [locateEntry_join hp hsource hs, locateEntry_join hp htarget ht]
  simp only [bind, Except.bind, he]
  cases e with
  | directory => cases hfree
  | file bytes seconds => rcases t.entryAt? (l ++ [target]) with - | (- | - | -) <;> rfl
  | link goal => rcases t.entryAt? (l ++ [target]) with - | (- | - | -) <;> rfl

lemma removeFile_join {seconds : Int64} (hp : t.LeadsInto p l)
    (hname : IsEntryName name) (hjoin : (p.join ⟨name⟩).IsAdmitted)
    (hfile : t.entryAt? (l ++ [name]) = some (.file bytes seconds)) :
    t.removeFile (p.join ⟨name⟩) = .ok (t.erase (l ++ [name])) := by
  unfold removeFile
  rw [locateEntry_join hp hname hjoin]
  simp only [bind, Except.bind, hfile]

end FileTree

/-! ## All that can come of it -/

namespace Document

open FileTree

variable {t : FileTree} {r : DirectoryRecord} {l : Location}

lemma isEntryName_fileName : IsEntryName fileName := by decide +kernel

lemma isEntryName_draftName : IsEntryName draftName := by decide +kernel

lemma fileName_ne_draftName : fileName ≠ draftName := by decide +kernel

/-- A document and a draft stand at different places. -/
lemma document_ne_draft (l m : Location) : l ++ [fileName] ≠ m ++ [draftName] :=
  concat_ne_concat fileName_ne_draftName l m

/-- Where the path of a draft may be taken, so may that of the document, which is shorter. -/
lemma isAdmitted_pathIn {p : Path} (h : (draftIn p).IsAdmitted) : (pathIn p).IsAdmitted := by
  have htext : (draftIn p).text = (pathIn p).text ++ ".tmp" := by
    apply String.toList_inj.mp
    rw [draftIn, pathIn, String.toList_append,
      Path.join_toList p isEntryName_draftName.isAbsolute_eq,
      Path.join_toList p isEntryName_fileName.isAbsolute_eq, draftName, String.toList_append]
    simp
  have hne : (pathIn p).text.toList ≠ [] := by
    unfold pathIn
    rw [Path.join_toList p isEntryName_fileName.isAbsolute_eq]
    simp [fileName]
  refine ⟨fun hempty => hne (by simp [hempty]), fun hnull => h.no_null ?_, ?_⟩
  · rw [htext, String.toList_append]
    exact List.mem_append_left _ hnull
  · have hsize := h.size_le
    rw [htext, String.utf8ByteSize_append] at hsize
    omega

/-- The bytes of the document of a record. -/
def bytes (r : DirectoryRecord) : ByteArray := (render r).toUTF8

/-- The tree with the draft of a document written and taken away again. -/
def withoutDraft (t : FileTree) (l : Location) (r : DirectoryRecord) : FileTree :=
  (t.put (l ++ [draftName]) (.file (bytes r) t.clock)).erase (l ++ [draftName])

lemma write_of_error {e : FileError}
    (h : t.write (r.path.join ⟨draftName⟩) (bytes r) = .error e) :
    write t r = (t, .error (.file e)) := by
  unfold write writeText draftIn
  rw [← bytes, h]

lemma write_of_moved {drafted moved : FileTree}
    (h : t.write (r.path.join ⟨draftName⟩) (bytes r) = .ok drafted)
    (hmove : drafted.moveFile (r.path.join ⟨draftName⟩) (r.path.join ⟨fileName⟩) = .ok moved) :
    write t r = (moved, .ok ()) := by
  unfold write writeText draftIn pathIn
  rw [← bytes, h]
  simp only [hmove]

lemma write_of_not_moved {drafted removed : FileTree} {e : FileError}
    (h : t.write (r.path.join ⟨draftName⟩) (bytes r) = .ok drafted)
    (hmove : drafted.moveFile (r.path.join ⟨draftName⟩) (r.path.join ⟨fileName⟩) = .error e)
    (hremove : drafted.removeFile (r.path.join ⟨draftName⟩) = .ok removed) :
    write t r = (removed, .error (.file e)) := by
  unfold write writeText draftIn pathIn
  rw [← bytes, h]
  simp only [hmove, hremove]
  rfl

/-- What comes of writing a document. -/
inductive Written (t : FileTree) (l : Location) (r : DirectoryRecord) :
    FileTree × Except Failure Unit → Prop
  /-- There was no draft to be written, and nothing was changed. -/
  | refused (f : Failure) :
      ¬(draftIn r.path).IsAdmitted ∨ t.entryAt? (l ++ [draftName]) = some .directory →
      Written t l r (t, .error f)
  /-- A directory stands where the document should, and the draft was removed. -/
  | obstructed (f : Failure) :
      (draftIn r.path).IsAdmitted → t.entryAt? (l ++ [draftName]) ≠ some .directory →
      t.entryAt? (l ++ [fileName]) = some .directory →
      Written t l r (withoutDraft t l r, .error f)
  /-- The document stands in its place, and no draft is left. -/
  | placed :
      (draftIn r.path).IsAdmitted → t.entryAt? (l ++ [draftName]) ≠ some .directory →
      t.entryAt? (l ++ [fileName]) ≠ some .directory →
      Written t l r
        ((withoutDraft t l r).put (l ++ [fileName]) (.file (bytes r) t.clock), .ok ())

/-- Writing a document into a directory in which no link has the name of the draft. -/
theorem write_cases (hr : t.LeadsInto r.path l)
    (hlink : ∀ target, t.entryAt? (l ++ [draftName]) ≠ some (.link target)) :
    Written t l r (write t r) := by
  by_cases hadmitted : (draftIn r.path).IsAdmitted
  · have hwrite := write_join hr isEntryName_draftName hlink hadmitted (bytes r)
    by_cases hdraft : t.entryAt? (l ++ [draftName]) = some .directory
    · rw [if_pos (any_isDirectory_iff.mpr hdraft)] at hwrite
      rw [write_of_error hwrite]
      exact .refused _ (.inr hdraft)
    · rw [if_neg (by rwa [any_isDirectory_iff])] at hwrite
      -- the draft is a file now, and the path of the directory leads where it led
      have hvacant : t.Vacant (l ++ [draftName]) := ⟨hdraft, hlink⟩
      have hinto := (hvacant.keepsWays_put (by simp) (bytes r) t.clock).leadsInto hr
      have hfile : (t.put (l ++ [draftName]) (.file (bytes r) t.clock)).entryAt?
          (l ++ [draftName]) = some (.file (bytes r) t.clock) := by
        rw [entryAt?_put (by simp), if_pos rfl]
      have hother : (t.put (l ++ [draftName]) (.file (bytes r) t.clock)).entryAt?
          (l ++ [fileName]) = t.entryAt? (l ++ [fileName]) := by
        rw [entryAt?_put (by simp), if_neg]
        simpa using fileName_ne_draftName
      have hmove := moveFile_join hinto isEntryName_draftName isEntryName_fileName hadmitted
        (isAdmitted_pathIn hadmitted) hfile rfl
      rw [hother] at hmove
      by_cases hplace : t.entryAt? (l ++ [fileName]) = some .directory
      · -- it cannot be moved, so it is taken away again
        rw [if_pos (any_isDirectory_iff.mpr hplace)] at hmove
        have hremove := removeFile_join hinto isEntryName_draftName hadmitted hfile
        rw [write_of_not_moved hwrite hmove hremove]
        exact .obstructed _ hadmitted hdraft hplace
      · rw [if_neg (by rwa [any_isDirectory_iff])] at hmove
        rw [write_of_moved hwrite hmove]
        exact .placed hadmitted hdraft hplace
  · obtain ⟨reason, hreason⟩ := write_join_not_admitted t hadmitted (bytes r)
    rw [write_of_error hreason]
    exact .refused _ (.inl hadmitted)

/-! ## Reading it back -/

section
variable {d : Path} {text : String}

lemma fromUTF8?_toUTF8 (s : String) : String.fromUTF8? s.toUTF8 = some s := by
  rw [String.toUTF8_eq_toByteArray, String.fromUTF8?, dif_pos s.isValidUTF8]
  rfl

lemma fromUTF8?_bytes (r : DirectoryRecord) : String.fromUTF8? (bytes r) = some (render r) :=
  fromUTF8?_toUTF8 (render r)

/-- A document is read where its path leads to a text. -/
lemma read_eq_ok_some_iff :
    Document.read t d = .ok (some text) ↔ t.readText (pathIn d) = .ok text := by
  unfold Document.read
  split <;> simp_all

/-- The document of a directory is the file that has its name. -/
lemma read_eq_some_iff (hd : t.find d = .ok (l, .directory))
    (hlink : ∀ target, t.entryAt? (l ++ [fileName]) ≠ some (.link target)) :
    Document.read t d = .ok (some text) ↔ (pathIn d).IsAdmitted ∧
      ∃ bytes seconds, t.entryAt? (l ++ [fileName]) = some (.file bytes seconds) ∧
        String.fromUTF8? bytes = some text := by
  have hname := isEntryName_fileName
  rw [read_eq_ok_some_iff, readText_eq_ok_iff]
  constructor
  · rintro ⟨k, bytes, seconds, hfind, htext⟩
    obtain ⟨hadmitted, -, -, hentry⟩ :=
      (find_join_iff hd hname.toIsPlainName hlink).mp hfind
    exact ⟨hadmitted, bytes, seconds, hentry, htext⟩
  · rintro ⟨hadmitted, bytes, seconds, hentry, htext⟩
    exact ⟨_, bytes, seconds, (find_join_iff hd hname.toIsPlainName hlink).mpr
      ⟨hadmitted, hname.size_le, rfl, hentry⟩, htext⟩

end

/-! ## What stays -/

lemma entryAt?_withoutDraft (t : FileTree) (l m : Location) (r : DirectoryRecord) :
    (withoutDraft t l r).entryAt? m = if m = l ++ [draftName] then none else t.entryAt? m := by
  unfold withoutDraft
  rw [entryAt?_erase (by simp), entryAt?_put (by simp)]
  by_cases h : m = l ++ [draftName]
  · rw [if_pos h, if_pos h]
  · rw [if_neg h, if_neg h, if_neg h]

/-- A location with the name of a document or of a draft. -/
def IsPlace (m : Location) : Prop := m.getLast? = some fileName ∨ m.getLast? = some draftName

lemma isPlace_fileName (l : Location) : IsPlace (l ++ [fileName]) := .inl (by simp)

lemma isPlace_draftName (l : Location) : IsPlace (l ++ [draftName]) := .inr (by simp)

/-- Two trees that differ at most in files that have the name of a document or of a draft. -/
structure SameButDocuments (t t' : FileTree) : Prop where
  workingDirectory : t'.workingDirectory = t.workingDirectory
  clock : t'.clock = t.clock
  elsewhere : ∀ m, ¬IsPlace m → t'.entryAt? m = t.entryAt? m
  places : ∀ m, t'.entryAt? m = t.entryAt? m ∨ t.Vacant m ∧ t'.Vacant m

namespace SameButDocuments

variable {t' t'' : FileTree} {m : Location}

lemma refl (t : FileTree) : SameButDocuments t t := ⟨rfl, rfl, fun _ _ => rfl, fun _ => .inl rfl⟩

lemma symm (h : SameButDocuments t t') : SameButDocuments t' t where
  workingDirectory := h.workingDirectory.symm
  clock := h.clock.symm
  elsewhere m hm := (h.elsewhere m hm).symm
  places m := (h.places m).imp Eq.symm And.symm

lemma vacant (h : SameButDocuments t t') (hm : t.Vacant m) : t'.Vacant m := by
  rcases h.places m with heq | ⟨-, hm'⟩
  · exact ⟨heq ▸ hm.no_directory, heq ▸ hm.no_link⟩
  · exact hm'

lemma trans (h : SameButDocuments t t') (h' : SameButDocuments t' t'') :
    SameButDocuments t t'' where
  workingDirectory := h'.workingDirectory.trans h.workingDirectory
  clock := h'.clock.trans h.clock
  elsewhere m hm := (h'.elsewhere m hm).trans (h.elsewhere m hm)
  places m := by
    rcases h.places m with heq | ⟨hm, hm'⟩
    · rcases h'.places m with heq' | ⟨hm', hm''⟩
      · exact .inl (heq'.trans heq)
      · exact .inr ⟨h.symm.vacant hm', hm''⟩
    · exact .inr ⟨hm, h'.vacant hm'⟩

/-- Directories and links stay, so every path leads where it led. -/
lemma keepsWays (h : SameButDocuments t t') : KeepsWays t t' where
  workingDirectory := h.workingDirectory
  directory m hm := by
    rcases h.places m with heq | ⟨hvacant, -⟩
    · rw [heq, hm]
    · exact absurd hm hvacant.no_directory
  link m target := by
    rcases h.places m with heq | ⟨hvacant, hvacant'⟩
    · rw [heq]
    · simp [hvacant.no_link target, hvacant'.no_link target]

end SameButDocuments

/-- Writing a document changes files with the name of a document or of a draft and nothing else. -/
lemma Written.sameButDocuments_of_noLink {o : FileTree × Except Failure Unit}
    (h : Written t l r o) (hlink : ∀ target, t.entryAt? (l ++ [fileName]) ≠ some (.link target))
    (hdraftLink : ∀ target, t.entryAt? (l ++ [draftName]) ≠ some (.link target)) :
    SameButDocuments t o.1 := by
  -- a draft that stood there before is gone, which is why drafts may differ too
  have hdraft : t.entryAt? (l ++ [draftName]) ≠ some .directory →
      SameButDocuments t (withoutDraft t l r) := by
    intro hfree
    refine ⟨rfl, rfl, fun m hm => ?_, fun m => ?_⟩
    · have hne : m ≠ l ++ [draftName] := fun heq => hm (heq ▸ isPlace_draftName l)
      rw [entryAt?_withoutDraft, if_neg hne]
    · by_cases heq : m = l ++ [draftName]
      · refine .inr ⟨heq ▸ ⟨hfree, hdraftLink⟩, ?_, ?_⟩
        · simp [entryAt?_withoutDraft, heq]
        · simp [entryAt?_withoutDraft, heq]
      · exact .inl (by rw [entryAt?_withoutDraft, if_neg heq])
  cases h with
  | refused => exact .refl t
  | obstructed f hadmitted hfree hplace => exact hdraft hfree
  | placed hadmitted hfree hplace =>
    refine (hdraft hfree).trans ⟨rfl, rfl, fun m hm => ?_, fun m => ?_⟩
    · have hne : m ≠ l ++ [fileName] := fun heq => hm (heq ▸ isPlace_fileName l)
      rw [entryAt?_put (by simp), if_neg hne]
    · by_cases heq : m = l ++ [fileName]
      · refine .inr ⟨(hdraft hfree).vacant (heq ▸ ⟨hplace, hlink⟩), ?_, ?_⟩
        · simp [entryAt?_put, heq]
        · simp [entryAt?_put, heq]
      · exact .inl (by rw [entryAt?_put (by simp), if_neg heq])

lemma Written.sameButDocuments {o : FileTree × Except Failure Unit} (h : Written t l r o)
    (hlinks : t.LinkFreeBelow l) : SameButDocuments t o.1 :=
  h.sameButDocuments_of_noLink (hlinks [fileName]) (hlinks [draftName])

lemma wellFormed_withoutDraft (h : t.WellFormed) (hl : t.entryAt? l = some .directory)
    (hfree : t.entryAt? (l ++ [draftName]) ≠ some .directory) :
    (withoutDraft t l r).WellFormed := by
  refine (h.put_file hl isEntryName_draftName hfree).erase (by simp) ?_
  rw [entryAt?_put (by simp), if_pos rfl]
  simp

lemma Written.wellFormed {o : FileTree × Except Failure Unit} (h : Written t l r o)
    (ht : t.WellFormed) (hl : t.entryAt? l = some .directory) : o.1.WellFormed := by
  cases h with
  | refused => exact ht
  | obstructed f hadmitted hfree hplace => exact wellFormed_withoutDraft ht hl hfree
  | placed hadmitted hfree hplace =>
    refine (wellFormed_withoutDraft ht hl hfree).put_file ?_ isEntryName_fileName ?_
    · rw [entryAt?_withoutDraft, if_neg (by simp), hl]
    · rw [entryAt?_withoutDraft, if_neg (by simpa using fileName_ne_draftName)]
      exact hplace

end Document

end DirectoryNotes
