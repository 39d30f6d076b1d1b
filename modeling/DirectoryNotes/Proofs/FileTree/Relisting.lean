import DirectoryNotes.Proofs.FileTree.Following

/-!
# The order of listing

The entries of a tree come in no particular order, and nothing but a listing shows it:

* `SameWays`: the directories and the links of two trees are the same. `SameWays.walk` says that
  segments lead to the same places in both, or fail alike;
* `SameEntries`: what stands at each location is the same in two trees. By `SameEntries.find_eq` paths
  lead to the same entries;
* `Relisted`: the same entries in another order. `Relisted.sameEntries` and `Relisted.children` are
  all that a reader of the tree can tell.
-/

namespace DirectoryNotes.FileTree

variable {t t' : FileTree} {l m here : Location} {e : Entry} {links : Nat} {path : List String}

/-! ## The same ways -/

/-- The same stands at each location of two trees, but for files, which may differ, and relative paths
start alike. -/
structure SameWays (t t' : FileTree) : Prop where
  workingDirectory : t'.workingDirectory = t.workingDirectory
  same : ∀ m, t'.entryAt? m = t.entryAt? m ∨ ∃ bytes seconds bytes' seconds',
    t.entryAt? m = some (.file bytes seconds) ∧ t'.entryAt? m = some (.file bytes' seconds')

namespace SameWays

lemma directory (h : SameWays t t') (hdir : t.entryAt? m = some .directory) :
    t'.entryAt? m = some .directory := by
  rcases h.same m with heq | ⟨_, _, _, _, hfile, -⟩
  · rw [heq, hdir]
  · rw [hfile] at hdir
    cases hdir

lemma link_iff (h : SameWays t t') {target : String} :
    t'.entryAt? m = some (.link target) ↔ t.entryAt? m = some (.link target) := by
  rcases h.same m with heq | ⟨_, _, _, _, hfile, hfile'⟩
  · rw [heq]
  · rw [hfile, hfile']
    exact iff_of_false nofun nofun

lemma isSome_eq (h : SameWays t t') (m : Location) :
    (t'.entryAt? m).isSome = (t.entryAt? m).isSome := by
  rcases h.same m with heq | ⟨_, _, _, _, hfile, hfile'⟩
  · rw [heq]
  · rw [hfile, hfile']
    rfl

/-- Segments lead to the same place in both trees, or fail for the same reason. -/
lemma walk (h : SameWays t t') : t'.walk links here path = t.walk links here path := by
  fun_induction t.walk links here path with
  | case1 links here => rw [walk_nil]
  | case2 links here segment rest hnone =>
    have hnone' : t'.entryAt? here = none := by
      rw [← Option.isNone_iff_eq_none, ← Option.not_isSome, h.isSome_eq, hnone]
      rfl
    rw [walk.eq_def, hnone']
  | case3 links here segment rest hdir hidle ih => rw [walk_of_idle (h.directory hdir) hidle, ih]
  | case4 links here rest hdir _ ih => rw [walk_up (h.directory hdir), ih]
  | case5 links here segment rest hdir hidle hup hlong =>
    rw [walk_of_tooLong (h.directory hdir) hidle hup hlong]
  | case6 here segment rest hdir hidle hup hlong target hlink =>
    rw [walk_of_last_link (h.directory hdir) hidle hup hlong (h.link_iff.mpr hlink)]
  | case7 here segment rest hdir hidle hup hlong target links hlink ih =>
    rw [walk_of_link (h.directory hdir) hidle hup hlong (h.link_iff.mpr hlink), ih]
  | case8 here segment rest hdir hidle hup hlong links hzero hsucc ih =>
    have hlink : ∀ target, t'.entryAt? (here ++ [segment]) ≠ some (.link target) :=
      fun target hentry => not_link_of_cases hzero hsucc target (h.link_iff.mp hentry)
    rw [walk_of_entry (h.directory hdir) hidle hup hlong hlink, ih]
  | case9 links here segment rest e hnot hentry =>
    cases e with
    | directory => exact absurd rfl hnot
    | link target => rw [walk.eq_def, h.link_iff.mpr hentry]
    | file bytes seconds =>
      -- whatever the file holds, no segment leads on from it
      rcases h.same here with heq | ⟨_, _, _, _, -, hfile⟩
      · rw [walk.eq_def, heq, hentry]
      · rw [walk.eq_def, hfile]

lemma locate_eq (h : SameWays t t') (p : Path) : t'.locate p = t.locate p := by
  unfold locate begin
  rw [h.workingDirectory]
  simp only [h.walk]

end SameWays

/-! ## The same entries -/

/-- What stands at each location is the same in two trees, and relative paths start alike. -/
structure SameEntries (t t' : FileTree) : Prop where
  workingDirectory : t'.workingDirectory = t.workingDirectory
  entryAt?_eq : ∀ m, t'.entryAt? m = t.entryAt? m

namespace SameEntries

lemma sameWays (h : SameEntries t t') : SameWays t t' :=
  ⟨h.workingDirectory, fun m => .inl (h.entryAt?_eq m)⟩

/-- A path leads to the same entry in both trees, or fails for the same reason. -/
lemma find_eq (h : SameEntries t t') (p : Path) : t'.find p = t.find p := by
  unfold find
  rw [h.sameWays.locate_eq]
  simp only [h.entryAt?_eq]

lemma isFile_eq (h : SameEntries t t') (p : Path) : t'.isFile p = t.isFile p := by
  unfold isFile
  rw [h.find_eq]

lemma readText_eq (h : SameEntries t t') (p : Path) : t'.readText p = t.readText p := by
  unfold readText readBytes
  rw [h.find_eq]

lemma reaches_eq (h : SameEntries t t') (p : Path) : t'.reaches p = t.reaches p := by
  unfold reaches
  rw [h.find_eq]

lemma isProject {root : Path} (h : SameEntries t t') (ht : t.IsProject root l)
    (hwell : t'.WellFormed) : t'.IsProject root l :=
  ⟨hwell, (h.find_eq root).trans ht.root,
    fun m target hlink => ht.linkFree m target ((h.entryAt?_eq _).symm.trans hlink)⟩

end SameEntries

/-! ## Another order -/

/-- The same entries in another order. -/
structure Relisted (t t' : FileTree) : Prop where
  entries : t'.entries.Perm t.entries
  workingDirectory : t'.workingDirectory = t.workingDirectory
  clock : t'.clock = t.clock

lemma lookup_of_mem {entries : List (Location × Entry)} (hnodup : (entries.map (·.1)).Nodup)
    (h : (m, e) ∈ entries) : entries.lookup m = some e := by
  induction entries with
  | nil => cases h
  | cons x rest ih =>
    obtain ⟨k, old⟩ := x
    rw [List.map_cons, List.nodup_cons] at hnodup
    rw [lookup_cons_eq]
    rcases List.mem_cons.mp h with heq | h
    · obtain ⟨rfl, rfl⟩ := Prod.mk.inj heq
      rw [if_pos rfl]
    · have hne : m ≠ k := fun heq => hnodup.1 (heq ▸ List.mem_map.mpr ⟨_, h, rfl⟩)
      rw [if_neg hne, ih hnodup.2 h]

/-- What stands at a location is what the entries say, if no location is taken twice. -/
lemma WellFormed.entryAt?_eq_some_iff (ht : t.WellFormed) (hm : m ≠ []) :
    t.entryAt? m = some e ↔ (m, e) ∈ t.entries := by
  constructor
  · exact mem_of_entryAt? hm
  · intro h
    rw [entryAt?_of_ne_nil hm, lookup_of_mem ht.nodup h]

namespace Relisted

lemma entryAt?_eq (h : Relisted t t') (ht : t.WellFormed) (m : Location) :
    t'.entryAt? m = t.entryAt? m := by
  have hnodup : (t'.entries.map (·.1)).Nodup := (h.entries.map _).nodup_iff.mpr ht.nodup
  by_cases hm : m = []
  · rw [hm, entryAt?_nil, entryAt?_nil]
  · refine Option.ext fun e => ?_
    rw [ht.entryAt?_eq_some_iff hm, entryAt?_of_ne_nil hm, ← h.entries.mem_iff]
    constructor
    · intro hlookup
      rw [← entryAt?_of_ne_nil hm] at hlookup
      exact mem_of_entryAt? hm hlookup
    · exact lookup_of_mem hnodup

lemma sameEntries (h : Relisted t t') (ht : t.WellFormed) : SameEntries t t' :=
  ⟨h.workingDirectory, h.entryAt?_eq ht⟩

/-- A directory is listed with the same names, in whichever order. -/
lemma children (h : Relisted t t') (l : Location) : (t'.children l).Perm (t.children l) :=
  h.entries.filterMap _

end Relisted

end DirectoryNotes.FileTree
