import DirectoryNotes.Proofs.FileTree.Stores

/-!
# Drafts that are links

A draft that is a link is written where it leads, and then the link is moved to the name of the
document. Read from there, it leads where it led before, unless the way went over the document itself:

* `DraftLeadsElsewhere`: the draft is no link, or one that leads elsewhere;
* `exists_linked_of_write`: what is left after a document was written over a link;
* `SameButLink.exists_walk`: the way of a link leads nowhere if it comes to the link again;
* `readText_of_write_iff`: a document that was written is read as it was rendered, exactly if the draft
  led elsewhere.
-/

namespace DirectoryNotes.Document

open FileTree

variable {t t' written : FileTree} {r : DirectoryRecord} {l m : Location} {target : String}

/-! ## The way of a draft -/

/-- Where the draft and the document of a directory stand. -/
def places (l : Location) : List Location := [l ++ [draftName], l ++ [fileName]]

/-- The tree without the draft and the document of a directory. -/
def bare (t : FileTree) (l : Location) : FileTree :=
  (t.erase (l ++ [draftName])).erase (l ++ [fileName])

/-- A link at the draft of a directory leads to some place, by a way that goes over neither the draft
nor the document. -/
def LeadsElsewhere (t : FileTree) (l : Location) (target : String) : Prop :=
  ∃ m ∉ places l, (bare t l).walk (linkLimit - 1) (startOf target l) (segments target) = .ok m

/-- If the draft of a directory is a link, it leads elsewhere. -/
def DraftLeadsElsewhere (t : FileTree) (d : Path) : Prop :=
  ∀ l target, t.find d = .ok (l, .directory) →
    t.entryAt? (l ++ [draftName]) = some (.link target) → LeadsElsewhere t l target

lemma entryAt?_bare (t : FileTree) (l m : Location) :
    (bare t l).entryAt? m = if m ∈ places l then none else t.entryAt? m := by
  unfold bare
  rw [entryAt?_erase (by simp), entryAt?_erase (by simp)]
  by_cases hdocument : m = l ++ [fileName]
  · simp [places, hdocument]
  · by_cases hdraft : m = l ++ [draftName]
    · simp [places, hdraft]
    · simp [places, hdocument, hdraft]

/-- A directory and those above it are neither its document nor its draft. -/
lemma notMem_places_of_isPrefix {front : Location} (h : front <+: l) : front ∉ places l := by
  have hlength := h.length_le
  intro hmem
  rcases List.mem_pair.mp hmem with rfl | rfl
  all_goals
    rw [List.length_append, List.length_singleton] at hlength
    omega

/-- A tree with the directories and links of another outside these places keeps the ways that do not
go over them. -/
lemma keepsWaysOff_bare
    (hdirectory : ∀ k ∉ places l, t.entryAt? k = some .directory → t'.entryAt? k = some .directory)
    (hlink : ∀ k ∉ places l, ∀ target,
      t'.entryAt? k = some (.link target) ↔ t.entryAt? k = some (.link target)) :
    KeepsWaysOff (places l) (bare t l) t' where
  vacant k hk := by constructor <;> simp [entryAt?_bare, hk]
  directory k hk hdir := by
    rw [entryAt?_bare, if_neg hk] at hdir
    exact hdirectory k hk hdir
  link k hk target := by
    rw [entryAt?_bare, if_neg hk]
    exact hlink k hk target

/-! ## Writing over a link -/

/-- The tree after a document was written to the place that a link at its draft leads to, and the link
was moved to the name of the document. -/
def linked (t : FileTree) (l m : Location) (r : DirectoryRecord) (target : String) : FileTree :=
  ((t.put m (.file (bytes r) t.clock)).erase (l ++ [draftName])).put (l ++ [fileName]) (.link target)

lemma entryAt?_linked (hm : m ≠ []) (k : Location) : (linked t l m r target).entryAt? k =
    if k = l ++ [fileName] then some (.link target)
    else if k = l ++ [draftName] then none
    else if k = m then some (.file (bytes r) t.clock)
    else t.entryAt? k := by
  unfold linked
  rw [entryAt?_put (by simp), entryAt?_erase (by simp), entryAt?_put hm]

section
variable (hr : t.find r.path = .ok (l, .directory))
  (hlink : t.entryAt? (l ++ [draftName]) = some (.link target))
include hr hlink

/-- The link is moved to the name of the document, unless a directory has that name. -/
lemma moveFile_link (hadmitted : (draftIn r.path).IsAdmitted) (hne : m ≠ []) (hvacant : t.Vacant m) :
    (t.put m (.file (bytes r) t.clock)).moveFile (draftIn r.path) (pathIn r.path) =
      if ((t.put m (.file (bytes r) t.clock)).entryAt? (l ++ [fileName])).any Entry.isDirectory then
        .error .isDirectory
      else .ok (linked t l m r target) := by
  -- the draft is still the link, for files are never written in place of one
  have hinto := (hvacant.keepsWays_put hne (bytes r) t.clock).leadsInto (leadsInto_of_find hr)
  have hdraft : (t.put m (.file (bytes r) t.clock)).entryAt? (l ++ [draftName]) =
      some (.link target) := by
    have hplace : l ++ [draftName] ≠ m := fun heq => hvacant.no_link target (heq ▸ hlink)
    rw [entryAt?_put hne, if_neg hplace, hlink]
  exact moveFile_join hinto isEntryName_draftName isEntryName_fileName hadmitted
    (isAdmitted_pathIn hadmitted) hdraft rfl

/-- A document that was written over a link stands where the link leads, and the link has its name. -/
lemma exists_linked_of_write (ht : t.WellFormed) (h : write t r = (written, .ok ())) :
    ∃ m, t.locate (draftIn r.path) = .ok m ∧ m ≠ [] ∧ t.Vacant m ∧
      written = linked t l m r target := by
  unfold write at h
  split at h
  · cases h
  · next drafted hdrafted =>
    obtain ⟨m, hlocate, hne, hvacant, rfl⟩ := exists_put_of_write ht hdrafted
    have hmove := moveFile_link hr hlink (isAdmitted_of_locate hlocate) hne hvacant
    split at h
    · next moved hmoved =>
      obtain ⟨rfl, -⟩ := Prod.mk.inj h
      refine ⟨m, hlocate, hne, hvacant, ?_⟩
      rw [← bytes, hmove] at hmoved
      split at hmoved
      · cases hmoved
      · exact (Except.ok.inj hmoved).symm
    · cases h

/-- Where the link leads to no directory, and none has the name of the document, a document is
written. -/
lemma write_of_link (hlocate : t.locate (draftIn r.path) = .ok m) (hne : m ≠ [])
    (hvacant : t.Vacant m) (hfree : t.entryAt? (l ++ [fileName]) ≠ some .directory) :
    write t r = (linked t l m r target, .ok ()) := by
  have hwrite := write_of_locate isEntryName_draftName.toIsPlainName hlocate (bytes r)
  rw [if_neg (by rw [any_isDirectory_iff]; exact hvacant.no_directory)] at hwrite
  have hmove := moveFile_link hr hlink (isAdmitted_of_locate hlocate) hne hvacant
  rw [if_neg] at hmove
  · exact write_of_moved hwrite hmove
  · rw [any_isDirectory_iff, entryAt?_put hne]
    split
    · simp
    · exact hfree

end

/-! ## Coming to a link again -/

/-- Two trees have the same directories and links, except that the first has a link at one place. -/
structure SameButLink (t u : FileTree) (l : Location) (name target : String) : Prop where
  here : t.entryAt? (l ++ [name]) = some (.link target)
  directory : ∀ k ≠ l ++ [name], t.entryAt? k = some .directory → u.entryAt? k = some .directory
  link : ∀ k ≠ l ++ [name], ∀ goal,
    u.entryAt? k = some (.link goal) ↔ t.entryAt? k = some (.link goal)

namespace SameButLink

variable {u : FileTree} {name : String} {here k : Location} {path rest : List String} {links : Nat}

/-- A way that leads somewhere does not come to the link, or it goes on from there with fewer links
to take. -/
lemma walk_or_again (h : SameButLink t u l name target) (hwalk : t.walk links here path = .ok k) :
    u.walk links here path = .ok k ∨ ∃ left < links, ∃ rest,
      t.walk left (startOf target l) (segments target ++ rest) = .ok k := by
  have hdirectory : ∀ m, t.entryAt? m = some .directory → u.entryAt? m = some .directory := by
    intro m hm
    refine h.directory m (fun heq => ?_) hm
    rw [heq, h.here] at hm
    cases hm
  -- step by step both trees say the same, up to the first step that comes to the link
  fun_induction t.walk links here path with
  | case1 links here =>
    rw [walk_nil]
    exact .inl hwalk
  | case2 => cases hwalk
  | case3 links here segment rest hdir hidle ih =>
    rw [walk_of_idle (hdirectory _ hdir) hidle]
    exact ih hwalk
  | case4 links here rest hdir _ ih =>
    rw [walk_up (hdirectory _ hdir)]
    exact ih hwalk
  | case5 => cases hwalk
  | case6 => cases hwalk
  | case7 here segment rest hdir hidle hup hlong goal links hlink ih =>
    by_cases heq : here ++ [segment] = l ++ [name]
    · -- this is the link, and the way goes on with its target
      obtain ⟨rfl, -⟩ := List.append_inj' heq rfl
      rw [heq, h.here] at hlink
      cases hlink
      exact .inr ⟨links, Nat.lt_succ_self links, rest, hwalk⟩
    · rw [walk_of_link (hdirectory _ hdir) hidle hup hlong ((h.link _ heq _).mpr hlink)]
      rcases ih hwalk with hsame | ⟨left, hlt, more, hagain⟩
      · exact .inl hsame
      · exact .inr ⟨left, Nat.lt_succ_of_lt hlt, more, hagain⟩
  | case8 here segment rest hdir hidle hup hlong links hzero hsucc ih =>
    have hnone := not_link_of_cases hzero hsucc
    have hplace : here ++ [segment] ≠ l ++ [name] := fun heq => hnone target (heq ▸ h.here)
    rw [walk_of_entry (hdirectory _ hdir) hidle hup hlong]
    · exact ih hwalk
    · exact fun goal hgoal => hnone goal ((h.link _ hplace goal).mp hgoal)
  | case9 => cases hwalk

/-- The way of the link leads somewhere only if it does so without coming to the link again. -/
lemma exists_walk (h : SameButLink t u l name target)
    (hwalk : t.walk links (startOf target l) (segments target ++ rest) = .ok k) :
    ∃ left ≤ links, ∃ m, u.walk left (startOf target l) (segments target) = .ok m ∧
      t.walk left (startOf target l) (segments target) = .ok m := by
  -- on the links that are left to take: each time the way comes to the link again, there are fewer
  induction links using Nat.strongRecOn generalizing rest k with
  | ind links ih =>
    obtain ⟨left, -, happend⟩ := walk_append t links (startOf target l) (segments target) rest
    cases hfirst : t.walk links (startOf target l) (segments target) with
    | error reason =>
      rw [happend, hfirst] at hwalk
      cases hwalk
    | ok m =>
      rcases h.walk_or_again hfirst with hsame | ⟨left, hlt, more, hagain⟩
      · exact ⟨links, Nat.le_refl links, m, hsame, hfirst⟩
      · obtain ⟨less, hle, found⟩ := ih left hlt hagain
        exact ⟨less, Nat.le_trans hle (Nat.le_of_lt hlt), found⟩

end SameButLink

/-! ## Reading it back -/

/-- A name that is a link's leads from a directory where the link leads. -/
lemma walk_link_name {name : String} (hl : t.entryAt? l = some .directory) (hname : IsEntryName name)
    (hlink : t.entryAt? (l ++ [name]) = some (.link target)) :
    t.walk linkLimit l [name] = t.walk (linkLimit - 1) (startOf target l) (segments target) := by
  have hstep : t.walk (linkLimit - 1 + 1) l [name] = _ :=
    walk_of_link hl hname.not_idle hname.ne_up (Nat.not_lt.mpr hname.size_le) hlink
  rwa [List.append_nil] at hstep

/-- The way of a link to a name ends at the entry that has the name beside the link. -/
lemma walk_to_name {name : String} {links : Nat} (hl : t.entryAt? l = some .directory)
    (hname : IsEntryName name) (hfree : ∀ goal, t.entryAt? (l ++ [name]) ≠ some (.link goal)) :
    t.walk links (startOf name l) (segments name) = .ok (l ++ [name]) := by
  have hplain := hname.toIsPlainName
  have hslash : name.toList.head? ≠ some '/' := by simpa [Path.isAbsolute] using hplain.isAbsolute_eq
  have hsegments : segments name = [name] := by
    simp [segments, hslash, Text.pieces_of_notMem hplain.no_slash]
  rw [hsegments, startOf, if_neg hslash, walk_name hl hplain hfree, if_pos hname.size_le]

/-- A link to a name leads elsewhere if neither the draft nor the document has the name. -/
lemma leadsElsewhere_name_iff {name : String} (hl : t.entryAt? l = some .directory)
    (hname : IsEntryName name) (hfree : ∀ goal, t.entryAt? (l ++ [name]) ≠ some (.link goal)) :
    LeadsElsewhere t l name ↔ name ≠ draftName ∧ name ≠ fileName := by
  have hplaces : l ++ [name] ∉ places l ↔ name ≠ draftName ∧ name ≠ fileName := by simp [places]
  have hbare : (bare t l).entryAt? l = some .directory := by
    rw [entryAt?_bare, if_neg (notMem_places_of_isPrefix (List.prefix_refl l)), hl]
  have hway : (bare t l).walk (linkLimit - 1) (startOf name l) (segments name) =
      .ok (l ++ [name]) := by
    refine walk_to_name hbare hname fun goal => ?_
    rw [entryAt?_bare]
    split
    · simp
    · exact hfree goal
  rw [← hplaces]
  constructor
  · rintro ⟨m, hm, hwalk⟩
    obtain rfl := Except.ok.inj (hway.symm.trans hwalk)
    exact hm
  · exact fun hm => ⟨_, hm, hway⟩

/-- Where the directories above a directory are as they were, its path, continued by a name, leads
where the name leads from it. -/
lemma locate_of_directories {name : String} (ht : t.WellFormed) (hl : t.entryAt? l = some .directory)
    (hname : IsEntryName name) (hjoin : ((pathOf l).join ⟨name⟩).IsAdmitted)
    (hdirs : ∀ front, front <+: l → t.entryAt? front = some .directory →
      t'.entryAt? front = some .directory) :
    t'.locate ((pathOf l).join ⟨name⟩) = t'.walk linkLimit l [name] := by
  refine locate_join_pathOf (fun n hmem => ?_) (fun front hfront => ?_) hjoin
  · rcases List.mem_append.mp hmem with hmem | hmem
    · exact ht.isEntryName hl n hmem
    · exact List.mem_singleton.mp hmem ▸ hname
  · refine hdirs front hfront ?_
    obtain ⟨more, rfl⟩ := hfront
    by_cases hmore : more = []
    · simpa [hmore] using hl
    · exact ht.above hmore hl

/-- Outside of these places, only the place that the link leads to has changed. -/
lemma entryAt?_linked_elsewhere (hne : m ≠ []) {k : Location} (hk : k ∉ places l) :
    (linked t l m r target).entryAt? k =
      if k = m then some (.file (bytes r) t.clock) else t.entryAt? k := by
  obtain ⟨hdraft, hdocument⟩ : k ≠ l ++ [draftName] ∧ k ≠ l ++ [fileName] := by
    simpa [places] using hk
  rw [entryAt?_linked hne, if_neg hdocument, if_neg hdraft]

lemma directory_linked (hne : m ≠ []) (hvacant : t.Vacant m) {k : Location} (hk : k ∉ places l)
    (hdir : t.entryAt? k = some .directory) :
    (linked t l m r target).entryAt? k = some .directory := by
  have hfree : k ≠ m := fun heq => hvacant.no_directory (heq ▸ hdir)
  rw [entryAt?_linked_elsewhere hne hk, if_neg hfree, hdir]

/-- The tree after a document was written over a link keeps the ways that go over neither place. -/
lemma keepsWaysOff_linked (hne : m ≠ []) (hvacant : t.Vacant m) :
    KeepsWaysOff (places l) (bare t l) (linked t l m r target) := by
  refine keepsWaysOff_bare (fun k hk => directory_linked hne hvacant hk) fun k hk goal => ?_
  rw [entryAt?_linked_elsewhere hne hk]
  split
  · next heq => simp [heq, hvacant.no_link goal]
  · rfl

/-- It has no other ways but those over the link that has the name of the document now. -/
lemma sameButLink_linked (hne : m ≠ []) (hvacant : t.Vacant m) :
    SameButLink (linked t l m r target) (bare t l) l fileName target := by
  have hmoved : (linked t l m r target).entryAt? (l ++ [draftName]) = none := by
    rw [entryAt?_linked hne, if_neg (document_ne_draft l l).symm, if_pos rfl]
  have hbare : (bare t l).entryAt? (l ++ [draftName]) = none := by
    rw [entryAt?_bare, if_pos (by simp [places])]
  constructor
  case here => rw [entryAt?_linked hne, if_pos rfl]
  case directory =>
    intro k hk hdir
    by_cases hdraft : k = l ++ [draftName]
    · rw [hdraft, hmoved] at hdir
      cases hdir
    · have hplace : k ∉ places l := by simp [places, hk, hdraft]
      rw [entryAt?_linked_elsewhere hne hplace] at hdir
      split at hdir
      · cases hdir
      · rw [entryAt?_bare, if_neg hplace, hdir]
  case link =>
    intro k hk goal
    by_cases hdraft : k = l ++ [draftName]
    · rw [hdraft, hmoved, hbare]
    · exact ((keepsWaysOff_linked hne hvacant).link k (by simp [places, hk, hdraft]) goal).symm

section
variable (ht : t.WellFormed) (hl : t.entryAt? l = some .directory) (hpath : r.path = pathOf l)
include ht hl hpath

/-- The path of the document leads where the link leads. -/
lemma locate_linked (hne : m ≠ []) (hvacant : t.Vacant m) (hadmitted : (pathIn r.path).IsAdmitted) :
    (linked t l m r target).locate (pathIn r.path) =
      (linked t l m r target).walk (linkLimit - 1) (startOf target l) (segments target) := by
  have hdirs : ∀ front, front <+: l → t.entryAt? front = some .directory →
      (linked t l m r target).entryAt? front = some .directory :=
    fun front hfront => directory_linked hne hvacant (notMem_places_of_isPrefix hfront)
  unfold pathIn at hadmitted ⊢
  rw [hpath] at hadmitted ⊢
  rw [locate_of_directories ht hl isEntryName_fileName hadmitted hdirs,
    walk_link_name (hdirs l (List.prefix_refl l) hl) isEntryName_fileName
      (by rw [entryAt?_linked hne, if_pos rfl])]

/-- After a document was written over a link, it is read where the link leads, exactly if the link
leads elsewhere. -/
lemma readText_linked_iff (hne : m ≠ []) (hvacant : t.Vacant m)
    (hlink : t.entryAt? (l ++ [draftName]) = some (.link target))
    (hlocate : t.locate (draftIn r.path) = .ok m) :
    (linked t l m r target).readText (pathIn r.path) = .ok (render r) ↔ LeadsElsewhere t l target := by
  have hadmitted := isAdmitted_of_locate hlocate
  have hdocument : (linked t l m r target).locate (pathIn r.path) = _ :=
    locate_linked ht hl hpath hne hvacant (isAdmitted_pathIn hadmitted)
  constructor
  · intro hread
    obtain ⟨k, found, seconds, hfind, -⟩ := readText_eq_ok_iff.mp hread
    obtain ⟨hk, hfile⟩ := find_eq_ok_iff.mp hfind
    rw [hdocument] at hk
    -- a file stands at the end of the way, and at the two places there is none
    have hplace : k ∉ places l := by
      intro hmem
      rw [entryAt?_linked hne] at hfile
      rcases List.mem_pair.mp hmem with rfl | rfl
      · rw [if_neg (document_ne_draft l l).symm, if_pos rfl] at hfile
        cases hfile
      · rw [if_pos rfl] at hfile
        cases hfile
    -- the way does not come to the document again, so it leads there without it
    rw [← List.append_nil (segments target)] at hk
    obtain ⟨left, hle, m', hbare, hlinked⟩ := (sameButLink_linked hne hvacant).exists_walk hk
    rw [List.append_nil] at hk
    obtain rfl : m' = k := Except.ok.inj ((walk_of_le hlinked hle).symm.trans hk)
    exact ⟨m', hplace, walk_of_le hbare hle⟩
  · rintro ⟨k, hk, hway⟩
    -- the draft was written where the link leads in the tree without it
    have hbare : KeepsWaysOff (places l) (bare t l) t :=
      keepsWaysOff_bare (fun _ _ hdir => hdir) fun _ _ _ => Iff.rfl
    unfold draftIn at hlocate hadmitted
    rw [hpath] at hlocate hadmitted
    rw [locate_of_directories ht hl isEntryName_draftName hadmitted fun _ _ hdir => hdir,
      walk_link_name hl isEntryName_draftName hlink, hbare.walk hk hway] at hlocate
    obtain rfl := Except.ok.inj hlocate
    have hfile : (linked t l k r target).entryAt? k = some (.file (bytes r) t.clock) := by
      rw [entryAt?_linked_elsewhere hne hk, if_pos rfl]
    rw [(keepsWaysOff_linked hne hvacant).walk hk hway] at hdocument
    rw [readText_of_find (find_eq_ok_iff.mpr ⟨hdocument, hfile⟩), fromUTF8?_bytes]

/-- After a document was put into its place, it is read there. -/
lemma readText_placed (hadmitted : (draftIn r.path).IsAdmitted) :
    ((withoutDraft t l r).put (l ++ [fileName]) (.file (bytes r) t.clock)).readText (pathIn r.path) =
      .ok (render r) := by
  set placed := (withoutDraft t l r).put (l ++ [fileName]) (.file (bytes r) t.clock) with hplaced
  have hfile : placed.entryAt? (l ++ [fileName]) = some (.file (bytes r) t.clock) := by
    rw [hplaced, entryAt?_put (by simp), if_pos rfl]
  have hdirectory : ∀ front, front <+: l → t.entryAt? front = some .directory →
      placed.entryAt? front = some .directory := by
    intro front hfront hdir
    obtain ⟨hdraft, hdocument⟩ : front ≠ l ++ [draftName] ∧ front ≠ l ++ [fileName] := by
      simpa [places] using notMem_places_of_isPrefix hfront
    rw [hplaced, entryAt?_put (by simp), if_neg hdocument, entryAt?_withoutDraft, if_neg hdraft, hdir]
  have hdocument : placed.locate (pathIn r.path) = .ok (l ++ [fileName]) := by
    have hjoin := isAdmitted_pathIn hadmitted
    unfold pathIn at hjoin ⊢
    rw [hpath] at hjoin ⊢
    rw [locate_of_directories ht hl isEntryName_fileName hjoin hdirectory,
      walk_name (hdirectory l (List.prefix_refl l) hl) isEntryName_fileName.toIsPlainName
        (by simp [hfile]), if_pos isEntryName_fileName.size_le]
  rw [readText_of_find (find_eq_ok_iff.mpr ⟨hdocument, hfile⟩), fromUTF8?_bytes]

/-- A document that was written into the directory of a resolved path is read as it was rendered,
exactly if its draft led elsewhere or was no link. -/
theorem readText_of_write_iff (hsize : (pathOf l).text.utf8ByteSize ≤ pathLimit)
    (h : write t r = (written, .ok ())) :
    written.readText (pathIn r.path) = .ok (render r) ↔ DraftLeadsElsewhere t r.path := by
  have hr : t.find r.path = .ok (l, .directory) := hpath ▸ find_pathOf ht hl (by simp) hsize
  by_cases hlink : ∃ target, t.entryAt? (l ++ [draftName]) = some (.link target)
  · obtain ⟨target, hlink⟩ := hlink
    obtain ⟨m, hlocate, hne, hvacant, rfl⟩ := exists_linked_of_write hr hlink ht h
    rw [readText_linked_iff ht hl hpath hne hvacant hlink hlocate]
    constructor
    · -- the path of the directory leads to one place only, and one link stands at its draft
      intro hway k goal hk hgoal
      obtain rfl : l = k := congrArg Prod.fst (Except.ok.inj (hr.symm.trans hk))
      rw [hlink] at hgoal
      cases hgoal
      exact hway
    · exact fun hdraft => hdraft l target hr hlink
  · have hwritten := write_cases (leadsInto_of_find hr) fun target heq => hlink ⟨target, heq⟩
    rw [h] at hwritten
    cases hwritten with
    | placed hadmitted hfree hplace =>
      refine iff_of_true (readText_placed ht hl hpath hadmitted) fun k target hk hgoal => ?_
      obtain rfl : l = k := congrArg Prod.fst (Except.ok.inj (hr.symm.trans hk))
      exact absurd ⟨target, hgoal⟩ hlink

end

end DirectoryNotes.Document
