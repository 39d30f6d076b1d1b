import DirectoryNotes.Proofs.Document.Write

/-!
# Replacing a document

Writing a document replaces the old one as a whole or leaves it as it was:

* `placed`: the tree with the document in its place. `write_of_free` says when this is what is left;
* `write_outcome`: whatever the path of a record is, nothing was changed or `write_cases` applies;
* `read_placed_iff`: the document is read back, unless the path went over the old one;
* `write_atomic`: all of it.
-/

namespace DirectoryNotes.Document

open FileTree

variable {t t' : FileTree} {r : DirectoryRecord} {l m : Location}

/-! ## What is left -/

/-- The tree with the document of a record in its place, and without a draft. -/
def placed (t : FileTree) (l : Location) (r : DirectoryRecord) : FileTree :=
  (withoutDraft t l r).put (l ++ [fileName]) (.file (bytes r) t.clock)

lemma entryAt?_placed (t : FileTree) (l m : Location) (r : DirectoryRecord) :
    (placed t l r).entryAt? m =
      if m = l ++ [fileName] then some (.file (bytes r) t.clock)
      else if m = l ++ [draftName] then none
      else t.entryAt? m := by
  unfold placed
  rw [entryAt?_put (by simp), entryAt?_withoutDraft]

/-- Where neither the draft nor the document is a directory, and the draft is no link, the document
is written. -/
lemma write_of_free (hr : t.LeadsInto r.path l) (hadmitted : (draftIn r.path).IsAdmitted)
    (hdraft : t.Vacant (l ++ [draftName]))
    (hplace : t.entryAt? (l ++ [fileName]) ≠ some .directory) :
    write t r = (placed t l r, .ok ()) := by
  have hwritten := write_cases hr hdraft.no_link
  generalize write t r = written at hwritten ⊢
  cases hwritten with
  | refused f hrefused =>
    rcases hrefused with hnot | hdirectory
    · exact absurd hadmitted hnot
    · exact absurd hdirectory hdraft.no_directory
  | obstructed f _ _ hdirectory => exact absurd hdirectory hplace
  | placed => rfl

section
variable (hdraft : ∀ m target, t.locateEntry (draftIn r.path) = .ok m →
  t.entryAt? m ≠ some (.link target))
include hdraft

/-- Writing a document leaves all as it was, or its path leads into a directory. -/
lemma write_outcome : (∃ f, write t r = (t, .error f)) ∨
    ∃ l, t.LeadsInto r.path l ∧ (∀ target, t.entryAt? (l ++ [draftName]) ≠ some (.link target)) ∧
      Written t l r (write t r) := by
  have hname := isEntryName_draftName.toIsPlainName
  cases hlocate : t.locate (draftIn r.path) with
  | error e =>
    obtain ⟨reason, hreason⟩ := write_of_not_located hname hlocate (bytes r)
    exact .inl ⟨_, write_of_error hreason⟩
  | ok k =>
    obtain ⟨l, hl⟩ := leadsInto_of_locate_join hname hlocate
    have hentry := locateEntry_join hl isEntryName_draftName (isAdmitted_of_locate hlocate)
    have hlink := fun target => hdraft _ target hentry
    exact .inr ⟨l, hl, hlink, write_cases hl hlink⟩

/-- A document that is written is put into its place. -/
lemma placed_of_write (h : write t r = (t', .ok ())) : ∃ l, t.LeadsInto r.path l ∧
    (draftIn r.path).IsAdmitted ∧ t.Vacant (l ++ [draftName]) ∧
    t.entryAt? (l ++ [fileName]) ≠ some .directory ∧ t' = placed t l r := by
  rcases write_outcome hdraft with ⟨f, hf⟩ | ⟨l, hl, hlink, hwritten⟩
  · rw [hf] at h
    cases h
  · rw [h] at hwritten
    cases hwritten with
    | placed hadmitted hfree hplace => exact ⟨l, hl, hadmitted, ⟨hfree, hlink⟩, hplace, rfl⟩

/-- When a document is not written, at most a draft is gone. -/
lemma kept_of_write {f : Failure} (h : write t r = (t', .error f)) (m : Location) :
    t'.entryAt? m = t.entryAt? m ∨
      t.locateEntry (draftIn r.path) = .ok m ∧ t'.entryAt? m = none := by
  rcases write_outcome hdraft with ⟨f', hf⟩ | ⟨l, hl, hlink, hwritten⟩
  · rw [hf] at h
    cases h
    exact .inl rfl
  · rw [h] at hwritten
    cases hwritten with
    | refused => exact .inl rfl
    | obstructed f hadmitted hfree hplace =>
      rw [entryAt?_withoutDraft]
      by_cases hm : m = l ++ [draftName]
      · rw [if_pos hm]
        exact .inr ⟨hm ▸ locateEntry_join hl isEntryName_draftName hadmitted, rfl⟩
      · rw [if_neg hm]
        exact .inl rfl

end

/-! ## Reading it back -/

/-- The tree without what has the name of the document of a directory. -/
def undocumented (t : FileTree) (l : Location) : FileTree := t.erase (l ++ [fileName])

lemma entryAt?_undocumented (t : FileTree) (l m : Location) :
    (undocumented t l).entryAt? m = if m = l ++ [fileName] then none else t.entryAt? m :=
  entryAt?_erase (by simp)

lemma vacant_undocumented (t : FileTree) (l : Location) :
    (undocumented t l).Vacant (l ++ [fileName]) := by
  constructor <;> simp [entryAt?_undocumented]

/-- Where a path leads without the document, it leads with it. -/
lemma leadsInto_of_undocumented {p : Path} {k : Location} (hk : k ≠ l ++ [fileName])
    (hp : (undocumented t l).LeadsInto p k) : t.LeadsInto p k := by
  have hkeeps : KeepsWaysOff [l ++ [fileName]] (undocumented t l) t := by
    refine keepsWaysOff_of_agree (by simpa using vacant_undocumented t l) fun m hm => .inl ?_
    rw [entryAt?_undocumented, if_neg (by simpa using hm)]
  exact hkeeps.leadsInto rfl (by simpa using hk) hp

/-- Where no link has the name of the document, no path goes over it. -/
lemma leadsInto_undocumented {p : Path} {k : Location} (hplace : t.Vacant (l ++ [fileName]))
    (hp : t.LeadsInto p k) : (undocumented t l).LeadsInto p k := by
  have hk : k ≠ l ++ [fileName] := fun heq => hplace.no_directory (heq ▸ hp.directory)
  have hkeeps : KeepsWaysOff [l ++ [fileName]] t (undocumented t l) := by
    refine keepsWaysOff_of_agree (by simpa using hplace) fun m hm => .inl ?_
    rw [entryAt?_undocumented, if_neg (by simpa using hm)]
  exact hkeeps.leadsInto rfl (by simpa using hk) hp

/-- The document that was put into its place is a file, and a draft that was written over was none
but a file, so both leave the ways as they are without the old document. -/
lemma leadsInto_placed_iff {p : Path} {k : Location} (hdraft : t.Vacant (l ++ [draftName]))
    (hk : k ≠ l ++ [fileName]) :
    (placed t l r).LeadsInto p k ↔ (undocumented t l).LeadsInto p k := by
  have hagree : ∀ m ∉ [l ++ [fileName]],
      (placed t l r).entryAt? m = (undocumented t l).entryAt? m ∨
        (undocumented t l).Vacant m ∧ (placed t l r).Vacant m := by
    intro m hm
    have hne : m ≠ l ++ [fileName] := by simpa using hm
    by_cases heq : m = l ++ [draftName]
    · have hold : (undocumented t l).entryAt? m = t.entryAt? m := by
        rw [entryAt?_undocumented, if_neg hne]
      have hnew : (placed t l r).entryAt? m = none := by
        rw [entryAt?_placed, if_neg hne, if_pos heq]
      refine .inr ⟨⟨?_, ?_⟩, ⟨by simp [hnew], by simp [hnew]⟩⟩
      · rw [hold, heq]
        exact hdraft.no_directory
      · rw [hold, heq]
        exact hdraft.no_link
    · rw [entryAt?_placed, if_neg hne, if_neg heq, entryAt?_undocumented, if_neg hne]
      exact .inl rfl
  have hplaced : (placed t l r).Vacant (l ++ [fileName]) := by
    constructor <;> simp [entryAt?_placed]
  have hto : KeepsWaysOff [l ++ [fileName]] (placed t l r) (undocumented t l) :=
    keepsWaysOff_of_agree (by simpa using hplaced) fun m hm => (hagree m hm).imp Eq.symm And.symm
  have hback : KeepsWaysOff [l ++ [fileName]] (undocumented t l) (placed t l r) :=
    keepsWaysOff_of_agree (by simpa using vacant_undocumented t l) hagree
  exact ⟨hto.leadsInto rfl (by simpa using hk), hback.leadsInto rfl (by simpa using hk)⟩

/-- A document that was put into its place is read back through the path of its directory, exactly
if this path led there without the old one. -/
lemma read_placed_iff (hr : t.LeadsInto r.path l) (hadmitted : (draftIn r.path).IsAdmitted)
    (hdraft : t.Vacant (l ++ [draftName])) :
    Document.read (placed t l r) r.path = .ok (some (render r)) ↔
      (undocumented t l).LeadsInto r.path l := by
  have hname := isEntryName_fileName.toIsPlainName
  have hfile : (placed t l r).entryAt? (l ++ [fileName]) = some (.file (bytes r) t.clock) := by
    rw [entryAt?_placed, if_pos rfl]
  rw [read_eq_ok_some_iff, readText_eq_ok_iff]
  constructor
  · rintro ⟨k, found, seconds, hfind, -⟩
    -- the path leads into some directory still, and this can be no other than before
    obtain ⟨k', hk'⟩ := leadsInto_of_locate_join hname (find_eq_ok_iff.mp hfind).1
    have hne : k' ≠ l ++ [fileName] := by
      intro heq
      have hdirectory := hk'.directory
      rw [heq, hfile] at hdirectory
      cases hdirectory
    have hwithout := (leadsInto_placed_iff hdraft hne).mp hk'
    rwa [(leadsInto_of_undocumented hne hwithout).unique hr] at hwithout
  · intro hwithout
    have hinto := (@leadsInto_placed_iff t r l r.path l hdraft (by simp)).mpr hwithout
    have hlocate := locate_join hinto hname (by simp [hfile]) (isAdmitted_pathIn hadmitted)
    rw [if_pos isEntryName_fileName.size_le] at hlocate
    exact ⟨_, _, _, find_eq_ok_iff.mpr ⟨hlocate, hfile⟩, fromUTF8?_bytes r⟩

/-! ## The law -/

/-- Writing a document replaces the old one as a whole or leaves it as it was, provided that no link
has the name of the draft. It goes well exactly if the path is one that the file system takes and
leads into a directory in which neither name is a directory's. Then the document stands there, a file
with the text of the record, no draft is left, and everything else is as it was, also what a link
that had the name of the document leads to. The document is read back through the path of its record,
exactly if this path does not go over such a link itself. When it does not go well, everything is as
it was, except that a draft may be gone. -/
theorem write_atomic (hdraft : ∀ m target, t.locateEntry (draftIn r.path) = .ok m →
      t.entryAt? m ≠ some (.link target)) :
    ((∃ t', write t r = (t', .ok ())) ↔ (draftIn r.path).IsAdmitted ∧ ∃ l, t.LeadsInto r.path l ∧
      t.entryAt? (l ++ [draftName]) ≠ some .directory ∧
      t.entryAt? (l ++ [fileName]) ≠ some .directory) ∧
    (∀ t', write t r = (t', .ok ()) → ∃ l,
      t.locateEntry (pathIn r.path) = .ok (l ++ [fileName]) ∧
      t.locateEntry (draftIn r.path) = .ok (l ++ [draftName]) ∧
      t'.entryAt? (l ++ [fileName]) = some (.file (render r).toUTF8 t.clock) ∧
      t'.entryAt? (l ++ [draftName]) = none ∧
      (∀ m, m ≠ l ++ [fileName] → m ≠ l ++ [draftName] → t'.entryAt? m = t.entryAt? m) ∧
      (Document.read t' r.path = .ok (some (render r)) ↔ (undocumented t l).LeadsInto r.path l) ∧
      ((∀ target, t.entryAt? (l ++ [fileName]) ≠ some (.link target)) →
        Document.read t' r.path = .ok (some (render r)))) ∧
    (∀ t' f, write t r = (t', .error f) → ∀ m, t'.entryAt? m = t.entryAt? m ∨
      t.locateEntry (draftIn r.path) = .ok m ∧ t'.entryAt? m = none) := by
  refine ⟨⟨?_, ?_⟩, ?_, ?_⟩
  · rintro ⟨t', h⟩
    obtain ⟨l, hl, hadmitted, hvacant, hplace, -⟩ := placed_of_write hdraft h
    exact ⟨hadmitted, l, hl, hvacant.no_directory, hplace⟩
  · rintro ⟨hadmitted, l, hl, hfree, hplace⟩
    have hentry := locateEntry_join hl isEntryName_draftName hadmitted
    exact ⟨_, write_of_free hl hadmitted ⟨hfree, fun target => hdraft _ target hentry⟩ hplace⟩
  · intro t' h
    obtain ⟨l, hl, hadmitted, hvacant, hplace, rfl⟩ := placed_of_write hdraft h
    have hread := read_placed_iff hl hadmitted hvacant
    refine ⟨l, locateEntry_join hl isEntryName_fileName (isAdmitted_pathIn hadmitted),
      locateEntry_join hl isEntryName_draftName hadmitted, ?_, ?_, ?_, hread, ?_⟩
    · rw [entryAt?_placed, if_pos rfl]
      rfl
    · rw [entryAt?_placed, if_neg (document_ne_draft l l).symm, if_pos rfl]
    · intro m hdocument hdraft
      rw [entryAt?_placed, if_neg hdocument, if_neg hdraft]
    · intro hlink
      exact hread.mpr (leadsInto_undocumented ⟨hplace, hlink⟩ hl)
  · exact fun t' f h m => kept_of_write hdraft h m

/-- A record of a directory without anything in it. -/
def bareRecord (path : Path) : DirectoryRecord where
  path := path
  purpose := "Nothing yet"
  architecture := "None."
  keyFiles := []
  recentChanges := []
  improvements := []
  dependencies := []

/-- A document that is a link to a file beside it, and a draft that was left behind. -/
def linkedTree : FileTree where
  entries := [(["notes.md"], .file "kept".toUTF8 1), ([".context.md"], .link "notes.md"),
    ([".context.md.tmp"], .file "half".toUTF8 1)]

/-- The link is replaced, and what it leads to is kept. -/
theorem write_atomic_linkedTree :
    (∀ m target, linkedTree.locateEntry (draftIn ⟨"/"⟩) = .ok m →
      linkedTree.entryAt? m ≠ some (.link target)) ∧
    ∃ t', write linkedTree (bareRecord ⟨"/"⟩) = (t', .ok ()) ∧
      t'.entryAt? [".context.md"] = some (.file (render (bareRecord ⟨"/"⟩)).toUTF8 1) ∧
      t'.entryAt? [".context.md.tmp"] = none ∧
      t'.entryAt? ["notes.md"] = some (.file "kept".toUTF8 1) ∧
      Document.read t' ⟨"/"⟩ = .ok (some (render (bareRecord ⟨"/"⟩))) := by
  have hslash : linkedTree.LeadsInto ⟨"/"⟩ [] := leadsInto_of_find (find_slash linkedTree)
  have hadmitted : (draftIn ⟨"/"⟩).IsAdmitted := by decide
  have hdraft : linkedTree.locateEntry (draftIn ⟨"/"⟩) = .ok [draftName] :=
    locateEntry_join hslash isEntryName_draftName hadmitted
  have hlink : ∀ m target, linkedTree.locateEntry (draftIn (bareRecord ⟨"/"⟩).path) = .ok m →
      linkedTree.entryAt? m ≠ some (.link target) := by
    intro m target hm
    obtain rfl := Except.ok.inj (hdraft.symm.trans hm)
    nofun
  obtain ⟨hwell, hplaced, -⟩ := write_atomic hlink
  obtain ⟨t', ht'⟩ := hwell.mpr ⟨hadmitted, [], hslash, nofun, nofun⟩
  obtain ⟨l, -, hentry, hdocument, hgone, helsewhere, hread, -⟩ := hplaced t' ht'
  obtain rfl : [] = l := List.append_cancel_right (Except.ok.inj (hdraft.symm.trans hentry))
  refine ⟨hlink, t', ht', hdocument, hgone, ?_, ?_⟩
  · exact helsewhere ["notes.md"] (by decide) (by decide)
  · exact hread.mpr (leadsInto_of_find (find_slash _))

/-- A document that is a link to its own directory. -/
def selfLinkedTree : FileTree where
  entries := [([".context.md"], .link ".")]

/-- Writing a document through the link that has its name goes well, but the link is gone then, and
what was written is not read back. -/
theorem write_over_own_path :
    (∀ m target, selfLinkedTree.locateEntry (draftIn ⟨"/.context.md"⟩) = .ok m →
      selfLinkedTree.entryAt? m ≠ some (.link target)) ∧
    ∃ t', write selfLinkedTree (bareRecord ⟨"/.context.md"⟩) = (t', .ok ()) ∧
      Document.read t' ⟨"/.context.md"⟩ ≠ .ok (some (render (bareRecord ⟨"/.context.md"⟩))) := by
  have hsegments : segments "/.context.md" = [fileName] := by decide
  have hstart : startOf "/.context.md" [] = [] := by decide
  have hinto : selfLinkedTree.LeadsInto ⟨"/.context.md"⟩ [] := by
    refine ⟨?_, rfl⟩
    have hpoint : segments "." = ["."] := by decide
    have hlink : selfLinkedTree.entryAt? ([] ++ [fileName]) = some (.link ".") := rfl
    show selfLinkedTree.walk (39 + 1) (startOf "/.context.md" []) (segments "/.context.md") = .ok []
    rw [hsegments, hstart, walk_of_link rfl (by decide) (by decide) (by decide) hlink, hpoint,
      List.append_nil, walk_of_idle rfl (.inr rfl), walk_nil]
    rfl
  have hadmitted : (draftIn ⟨"/.context.md"⟩).IsAdmitted := by decide
  have hdraft : selfLinkedTree.locateEntry (draftIn ⟨"/.context.md"⟩) = .ok [draftName] :=
    locateEntry_join hinto isEntryName_draftName hadmitted
  have hvacant : selfLinkedTree.Vacant ([] ++ [draftName]) := ⟨nofun, nofun⟩
  refine ⟨?_, _, write_of_free (r := bareRecord ⟨"/.context.md"⟩) hinto hadmitted hvacant nofun, ?_⟩
  · intro m target hm
    obtain rfl := Except.ok.inj (hdraft.symm.trans hm)
    nofun
  · intro hread
    have hwithout := (read_placed_iff (r := bareRecord ⟨"/.context.md"⟩) hinto hadmitted hvacant).mp
      hread
    -- without the link the path leads to a name that nothing has
    have hway : (undocumented selfLinkedTree []).walk linkLimit [] [fileName] =
        .ok [fileName] := by
      rw [walk_name rfl isEntryName_fileName.toIsPlainName (by simp [entryAt?_undocumented]),
        if_pos isEntryName_fileName.size_le]
      rfl
    have hleads := hwithout.way
    change (undocumented selfLinkedTree []).walk linkLimit (startOf "/.context.md" [])
      (segments "/.context.md") = .ok [] at hleads
    rw [hsegments, hstart, hway] at hleads
    cases hleads

end DirectoryNotes.Document
