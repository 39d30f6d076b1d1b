import DirectoryNotes.Proofs.FileTree.Naming

/-!
# Marks

A directory that was reached before is known again by its mark:

* `HasShortPaths`, `mark_of_find`: where the path of every directory is short enough the mark is that of
  its place, so a directory is known again on every way;
* `mark_cases`, `mark_of_tooLong`: otherwise the mark may be that of the path on which the directory
  was reached;
* `mark_inj`: below a root without links different directories have different marks all the same.
-/

namespace DirectoryNotes.FileTree

variable {t : FileTree} {p q root : Path} {l k : Location} {names more : List String}

/-! ## Short paths -/

/-- The path of every directory is short enough for the file system to tell it. -/
def HasShortPaths (t : FileTree) : Prop :=
  ∀ l, t.entryAt? l = some .directory → (pathOf l).text.utf8ByteSize ≤ pathLimit

lemma hasShortPaths_of_entries (h : ∀ x ∈ t.entries, (pathOf x.1).text.utf8ByteSize ≤ pathLimit) :
    HasShortPaths t := by
  intro l hl
  by_cases hne : l = []
  · subst hne
    decide +kernel
  · exact h _ (mem_of_entryAt? hne hl)

lemma isPlainName_of_entry {e : Entry} (ht : t.WellFormed) (he : t.entryAt? l = some e) :
    ∀ n ∈ l, IsPlainName n :=
  fun n hn => (ht.isEntryName he n hn).toIsPlainName

lemma mark_of_resolved {e : Entry} (h : t.ResolvesTo p l e) : t.mark p = (pathOf l).parts := by
  unfold mark
  rw [h.realPath]
  rfl

lemma mark_of_find (hshort : HasShortPaths t) (h : t.find p = .ok (l, .directory)) :
    t.mark p = (pathOf l).parts :=
  mark_of_resolved (resolvesTo_of_find h (hshort l (find_eq_ok_iff.mp h).2))

/-- Directories that paths resolve to have the same mark where the paths come down to the same. -/
lemma mark_eq_iff {e e' : Entry} (ht : t.WellFormed) (hp : t.ResolvesTo p l e)
    (hq : t.ResolvesTo q k e') : t.mark p = t.mark q ↔ t.realPath p = t.realPath q := by
  rw [mark_of_resolved hp, mark_of_resolved hq, hp.realPath, hq.realPath, Except.ok.injEq]
  constructor
  · intro h
    rw [parts_pathOf_inj (isPlainName_of_entry ht hp.entry) (isPlainName_of_entry ht hq.entry) h]
  · intro h
    rw [h]

/-! ## Paths of any length -/

/-- Where the path of a directory is too long, its mark is that of the path on which it was
reached. -/
lemma mark_of_tooLong (h : t.LeadsInto p l) (hlong : pathLimit < (pathOf l).text.utf8ByteSize) :
    t.mark p = p.parts := by
  cases hreal : t.realPath p with
  | error reason =>
    unfold mark
    rw [hreal]
    rfl
  | ok q =>
    obtain ⟨k, e, hk, -⟩ := realPath_eq_ok_iff.mp hreal
    obtain rfl := Except.ok.inj (hk.walk.symm.trans h.way)
    exact absurd hk.size_le (Nat.not_le.mpr hlong)

/-- The mark of a directory is that of its place, or that of its path. -/
lemma mark_cases (h : t.LeadsInto p l) : t.mark p = (pathOf l).parts ∨ t.mark p = p.parts := by
  by_cases hlong : pathLimit < (pathOf l).text.utf8ByteSize
  · exact .inr (mark_of_tooLong h hlong)
  · cases hreal : t.realPath p with
    | error reason =>
      right
      unfold mark
      rw [hreal]
      rfl
    | ok q =>
      left
      obtain ⟨k, e, hk, -⟩ := realPath_eq_ok_iff.mp hreal
      obtain rfl := Except.ok.inj (hk.walk.symm.trans h.way)
      exact mark_of_resolved hk

/-- The path of a directory has the parts of a location's path only if it leads there. -/
lemma eq_of_parts (ht : t.WellFormed) (hk : t.entryAt? k = some .directory) (hp : t.LeadsInto p l)
    (h : (pathOf k).parts = p.parts) : k = l := by
  rw [parts_pathOf (isPlainName_of_entry ht hk)] at h
  refine (location_of_parts hp h.symm ?_).symm
  rintro front ⟨back, rfl⟩ target hlink
  by_cases hback : back = []
  · subst hback
    rw [List.append_nil, hlink] at hk
    cases hk
  · rw [ht.above hback hk] at hlink
    cases hlink

/-- The path of a directory of the project leads there. -/
lemma IsProject.leadsInto_follow (ht : t.IsProject root l)
    (h : t.entryAt? (l ++ names) = some .directory) :
    t.LeadsInto (root.follow names) (l ++ names) :=
  (leadsInto_of_find ht.root).follow ht.wellFormed h

/-- The marks of different directories differ. -/
lemma mark_inj (ht : t.IsProject root l) (hnames : t.entryAt? (l ++ names) = some .directory)
    (hmore : t.entryAt? (l ++ more) = some .directory)
    (h : t.mark (root.follow names) = t.mark (root.follow more)) : names = more := by
  have hplain := isPlainName_of_entry ht.wellFormed hnames
  have hplain' := isPlainName_of_entry ht.wellFormed hmore
  have hleads := ht.leadsInto_follow hnames
  have hleads' := ht.leadsInto_follow hmore
  rcases mark_cases hleads with hmark | hmark
  · rcases mark_cases hleads' with hmark' | hmark'
    · rw [hmark, hmark'] at h
      exact List.append_cancel_left (parts_pathOf_inj hplain hplain' h)
    · rw [hmark, hmark'] at h
      exact List.append_cancel_left (eq_of_parts ht.wellFormed hnames hleads' h)
  · rcases mark_cases hleads' with hmark' | hmark'
    · rw [hmark, hmark'] at h
      exact (List.append_cancel_left (eq_of_parts ht.wellFormed hmore hleads h.symm)).symm
    · rw [hmark, hmark'] at h
      exact Path.follow_inj (fun n hn => hplain n (List.mem_append_right l hn))
        (fun n hn => hplain' n (List.mem_append_right l hn)) h

end DirectoryNotes.FileTree
