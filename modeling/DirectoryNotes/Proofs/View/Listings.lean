import DirectoryNotes.Proofs.FileTree.FarDown
import DirectoryNotes.Proofs.Text.Lines
import DirectoryNotes.Proofs.View.Visible
import Mathlib.Algebra.Order.BigOperators.Group.List
import Mathlib.Data.List.Nodup
import Mathlib.Data.List.Perm.Subperm

/-!
# Directories that are listed

Links may lead to a directory on many ways, but a drawing lists the entries of each at most once:

* `unmarked`: how many directories are not marked. A mark that is new takes one away;
* `Draws.exists_listed`: drawing entries lists other directories each time;
* `Draws.unique`: below the number of directories that are not yet marked, the depth does not matter;
* `drawTree_listed`: what follows for a drawing.
-/

namespace DirectoryNotes.Drawing

open FileTree Text

variable {t : FileTree} {p root : Path} {l m : Location} {depth : Nat} {name margin : String}

/-! ## Directories -/

/-- The directories of a tree. -/
def directories (t : FileTree) : List Location :=
  [] :: (t.entries.map (·.1)).filter fun l => l ≠ [] && isDirectoryAt t l

lemma mem_directories_iff : l ∈ directories t ↔ t.entryAt? l = some .directory := by
  rw [directories, List.mem_cons, List.mem_filter, Bool.and_eq_true, decide_eq_true_eq,
    isDirectoryAt_iff]
  by_cases hl : l = []
  · simp [hl]
  · simp only [hl, false_or, ne_eq, not_false_eq_true, true_and, and_iff_right_iff_imp]
    exact fun h => List.mem_map_of_mem (mem_of_entryAt? hl h)

lemma length_directories_le (t : FileTree) : (directories t).length ≤ t.entries.length + 1 := by
  have hkeys : (t.entries.map (·.1)).length = t.entries.length := List.length_map _
  rw [directories, List.length_cons, Nat.add_le_add_iff_right, ← hkeys]
  exact List.length_filter_le _ _

lemma nodup_directories (ht : t.WellFormed) : (directories t).Nodup :=
  List.nodup_cons.mpr ⟨by simp, ht.nodup.filter _⟩

/-- How many directories are not marked. -/
def unmarked (t : FileTree) (seen : List (List PathPart)) : Nat :=
  (directories t).countP fun l => !seen.contains (pathOf l).parts

lemma unmarked_le (seen : List (List PathPart)) : unmarked t seen ≤ (directories t).length :=
  List.countP_le_length

lemma unmarked_mono {seen after : List (List PathPart)} (h : seen ⊆ after) :
    unmarked t after ≤ unmarked t seen := by
  refine List.countP_mono_left ?_
  simp only [Bool.not_eq_true', List.contains_eq_mem, decide_eq_false_iff_not]
  exact fun _ _ hafter hseen => hafter (h hseen)

/-- A mark that is new takes a directory away from those that are not marked. -/
lemma unmarked_cons_lt {seen : List (List PathPart)} (hl : t.entryAt? l = some .directory)
    (hnew : (pathOf l).parts ∉ seen) :
    unmarked t ((pathOf l).parts :: seen) < unmarked t seen := by
  obtain ⟨before, after, hsplit⟩ := List.append_of_mem (mem_directories_iff.mpr hl)
  have hle : ∀ ls : List Location,
      ls.countP (fun k => !((pathOf l).parts :: seen).contains (pathOf k).parts) ≤
        ls.countP fun k => !seen.contains (pathOf k).parts := by
    intro ls
    refine List.countP_mono_left ?_
    simp only [Bool.not_eq_true', List.contains_eq_mem, decide_eq_false_iff_not, List.mem_cons, not_or]
    exact fun _ _ h => h.2
  have hbefore := hle before
  have hafter := hle after
  unfold unmarked
  rw [hsplit, List.countP_append, List.countP_append, List.countP_cons, List.countP_cons,
    if_neg (by simp), if_pos (by simpa using hnew)]
  omega

/-! ## The items of a directory -/

lemma isDirectory_of_mem_items {item : Item} (h : item ∈ items t p) :
    item.isDirectory = t.isDirectory item.path := by
  unfold items at h
  obtain ⟨n, -, rfl⟩ := List.mem_map.mp (List.mem_mergeSort.mp h)
  rfl

/-- The items of a directory bear its drawn names. -/
lemma names_items (h : t.find p = .ok (l, .directory)) :
    ((items t p).map (·.name)).Perm (drawnNames t l) := by
  unfold items
  rw [listDirectory_of_find h]
  refine ((List.mergeSort_perm _ _).map _).trans ?_
  rw [List.map_map]
  exact .of_eq (List.map_id _)

/-- A path that does not lead to a directory has no items. -/
lemma items_of_not_directory (h : ∀ l, t.find p ≠ .ok (l, .directory)) : items t p = [] := by
  have hlist : (t.listDirectory p).toOption = none := by
    unfold listDirectory
    cases hfind : t.find p with
    | error reason => rfl
    | ok found =>
      obtain ⟨l, e⟩ := found
      cases e with
      | directory => exact absurd hfind (h l)
      | file bytes modified => rfl
      | link target => rfl
  unfold items
  rw [hlist]
  simp

/-- The items tell directories as the tree does. -/
def AreSound (t : FileTree) (remaining : List Item) : Prop :=
  ∀ item ∈ remaining, item.isDirectory = t.isDirectory item.path

lemma areSound_items (t : FileTree) (p : Path) : AreSound t (items t p) :=
  fun _ => isDirectory_of_mem_items

lemma AreSound.tail {item : Item} {remaining : List Item} (h : AreSound t (item :: remaining)) :
    AreSound t remaining :=
  fun other hother => h other (List.mem_cons_of_mem _ hother)

/-- An item that is a directory leads to one. -/
lemma AreSound.exists_find {item : Item} {remaining : List Item}
    (h : AreSound t (item :: remaining)) (hdirectory : item.isDirectory = true) :
    ∃ l, t.find item.path = .ok (l, .directory) := by
  rw [h item List.mem_cons_self] at hdirectory
  exact isDirectory_iff.mp hdirectory

/-! ## Listing -/

/-- The names of a sketch, in the order of their lines. -/
def Sketch.names : Sketch → List String
  | nil => []
  | cons name _ inner rest => name :: (inner.names ++ rest.names)

/-- The margin below entries, given whether each is the last one of its directory. -/
def marginOf (lasts : List Bool) : String := String.join (lasts.map stem)

/-- Whether a line is one that an entry is drawn as. -/
def IsLineOf (entry : Location × String) (s : String) : Prop :=
  ∃ lasts isLast isDirectory, s = line (marginOf lasts) isLast entry.2 isDirectory

lemma innerMargin_marginOf (lasts : List Bool) (isLast : Bool) :
    innerMargin (marginOf lasts) isLast = marginOf (lasts ++ [isLast]) := by
  simp [innerMargin, marginOf, String.join_append]

lemma forall₂_lines (f : Sketch) (lasts : List Bool) :
    List.Forall₂ (fun name s => ∃ lasts isLast isDirectory,
      s = line (marginOf lasts) isLast name isDirectory) f.names (f.lines (marginOf lasts)) := by
  induction f generalizing lasts with
  | nil => exact .nil
  | cons name isDirectory inner rest ihinner ihrest =>
    rw [Sketch.lines, innerMargin_marginOf]
    exact .cons ⟨_, _, _, rfl⟩ (List.rel_append (ihinner _) (ihrest _))

lemma newline_notMem_of_isLineOf {entry : Location × String} {s : String} (h : IsLineOf entry s)
    (hname : '\n' ∉ entry.2.toList) : '\n' ∉ s.toList := by
  obtain ⟨lasts, isLast, isDirectory, rfl⟩ := h
  have hmargin : '\n' ∉ (marginOf lasts).toList := by
    rw [marginOf, String.toList_join, List.mem_flatMap]
    rintro ⟨part, hpart, hmem⟩
    obtain ⟨isLast', -, rfl⟩ := List.mem_map.mp hpart
    exact newline_notMem_stem isLast' hmem
  simp [toList_line, hmargin, newline_notMem_branch, newline_notMem_label hname]

variable {remaining : List Item} {seen after : List (List PathPart)} {f : Sketch}

lemma Draws.subset (h : Draws t depth remaining seen f after) : seen ⊆ after := by
  induction h with
  | nil => exact fun _ hk => hk
  | pass _ _ ih => exact ih
  | enter _ _ _ _ ihinner ihrest =>
    exact fun k hk => ihrest (ihinner (List.mem_cons_of_mem _ hk))

/-- The drawn entries of directories. -/
def entriesOf (t : FileTree) (ls : List Location) : List (Location × String) :=
  ls.flatMap fun l => (drawnNames t l).map (l, ·)

lemma entriesOf_cons_append (t : FileTree) (k : Location) (below beside : List Location) :
    entriesOf t (k :: (below ++ beside)) =
      (drawnNames t k).map (k, ·) ++ entriesOf t below ++ entriesOf t beside := by
  simp [entriesOf]

/-- The entries below a directory and those beside it are the entries of the directory and of all that
are listed. -/
lemma perm_entriesOf {k : Location} (hk : t.find p = .ok (k, .directory))
    {below beside : List Location} {entries entries' here : List (Location × String)}
    (hbelow : entries.Perm ((items t p).map (k, ·.name) ++ entriesOf t below))
    (hbeside : entries'.Perm (here ++ entriesOf t beside)) :
    (entries ++ entries').Perm (here ++ entriesOf t (k :: (below ++ beside))) := by
  have hitems : ((items t p).map (k, ·.name)).Perm ((drawnNames t k).map (k, ·)) := by
    have hmap := (names_items hk).map (k, ·)
    rwa [List.map_map] at hmap
  rw [entriesOf_cons_append]
  refine ((hbelow.trans (hitems.append_right _)).append hbeside).trans ?_
  exact List.perm_append_comm_assoc ..

/-- Different directories, each of them marked while the marks `seen` become the marks `after`. -/
structure AreListed (t : FileTree) (seen after : List (List PathPart)) (listed : List Location) :
    Prop where
  nodup : listed.Nodup
  directory : ∀ l ∈ listed, t.entryAt? l = some .directory
  new : ∀ l ∈ listed, (pathOf l).parts ∉ seen
  marked : ∀ l ∈ listed, (pathOf l).parts ∈ after

/-- A directory, those that are listed below it, and those beside it. The marks tell them apart. -/
lemma AreListed.enter {k : Location} {between : List (List PathPart)} {below beside : List Location}
    (hk : t.entryAt? k = some .directory) (hnew : (pathOf k).parts ∉ seen)
    (hbelow : AreListed t ((pathOf k).parts :: seen) between below)
    (hbeside : AreListed t between after beside)
    (hinner : (pathOf k).parts :: seen ⊆ between) (hrest : between ⊆ after) :
    AreListed t seen after (k :: (below ++ beside)) := by
  have hbetween : (pathOf k).parts ∈ between := hinner List.mem_cons_self
  constructor
  case nodup =>
    rw [List.nodup_cons, List.mem_append, not_or, List.nodup_append]
    refine ⟨⟨fun hmem => hbelow.new k hmem List.mem_cons_self, fun hmem => ?_⟩, hbelow.nodup,
      hbeside.nodup, fun l hl l' hl' heq => ?_⟩
    · exact hbeside.new k hmem hbetween
    · exact hbeside.new l' hl' (heq ▸ hbelow.marked l hl)
  case directory =>
    exact List.forall_mem_cons.mpr
      ⟨hk, List.forall_mem_append.mpr ⟨hbelow.directory, hbeside.directory⟩⟩
  case new =>
    refine List.forall_mem_cons.mpr ⟨hnew, List.forall_mem_append.mpr ⟨fun l hl => ?_, fun l hl => ?_⟩⟩
    · exact fun hmem => hbelow.new l hl (List.mem_cons_of_mem _ hmem)
    · exact fun hmem => hbeside.new l hl (hinner (List.mem_cons_of_mem _ hmem))
  case marked =>
    exact List.forall_mem_cons.mpr ⟨hrest hbetween,
      List.forall_mem_append.mpr ⟨fun l hl => hrest (hbelow.marked l hl), hbeside.marked⟩⟩

/-- Drawing items lists directories that were not marked before, each once: the names are those of the
items and of the entries of these directories. -/
theorem Draws.exists_listed (hshort : HasShortPaths t)
    (h : Draws t depth remaining seen f after) (hsound : AreSound t remaining) :
    ∃ listed : List Location, AreListed t seen after listed ∧
      ∀ here : Location, ∃ entries : List (Location × String),
        entries.Perm (remaining.map (here, ·.name) ++ entriesOf t listed) ∧
          entries.map (·.2) = f.names := by
  induction h with
  | nil depth seen =>
    exact ⟨[], ⟨.nil, by simp, by simp, by simp⟩, fun here => ⟨[], by simp [entriesOf], rfl⟩⟩
  | @pass depth item remaining seen after rest hpass hdraws ih =>
    obtain ⟨listed, hlisted, hentries⟩ := ih hsound.tail
    refine ⟨listed, hlisted, fun here => ?_⟩
    obtain ⟨entries, hperm, hnames⟩ := hentries here
    exact ⟨(here, item.name) :: entries, hperm.cons _, by
      rw [List.map_cons, hnames, Sketch.names, Sketch.names, List.nil_append]⟩
  | @enter depth item remaining seen between after inner rest hdirectory hnew hinner hdraws
      ihinner ihrest =>
    obtain ⟨k, hk⟩ := hsound.exists_find hdirectory
    obtain ⟨below, hbelow, hbelowEntries⟩ := ihinner (areSound_items t item.path)
    obtain ⟨beside, hbeside, hbesideEntries⟩ := ihrest hsound.tail
    have hmarks := hinner.subset
    rw [mark_of_find hshort hk] at hnew hbelow hmarks
    refine ⟨k :: (below ++ beside),
      .enter (find_eq_ok_iff.mp hk).2 hnew hbelow hbeside hmarks hdraws.subset, fun here => ?_⟩
    obtain ⟨entries, hperm, hnames⟩ := hbelowEntries k
    obtain ⟨entries', hperm', hnames'⟩ := hbesideEntries here
    refine ⟨(here, item.name) :: (entries ++ entries'), (perm_entriesOf hk hperm hperm').cons _, ?_⟩
    rw [List.map_cons, List.map_append, hnames, hnames', Sketch.names]

/-! ## Depth -/

/-- The depth does not matter where it is not below the number of directories that are not marked. -/
theorem Draws.unique (hshort : HasShortPaths t) (h : Draws t depth remaining seen f after)
    (hsound : AreSound t remaining) {depth' : Nat} {g : Sketch} {after' : List (List PathPart)}
    (h' : Draws t depth' remaining seen g after') (hdepth : unmarked t seen ≤ depth)
    (hdepth' : unmarked t seen ≤ depth') : f = g ∧ after = after' := by
  -- a directory that is not marked is one of those that are counted
  have hroom : ∀ {item : Item} {remaining seen}, AreSound t (item :: remaining) →
      item.isDirectory = true → t.mark item.path ∉ seen →
      unmarked t (t.mark item.path :: seen) < unmarked t seen := by
    intro item remaining seen hsound hdirectory hnew
    obtain ⟨k, hk⟩ := hsound.exists_find hdirectory
    rw [mark_of_find hshort hk] at hnew ⊢
    exact unmarked_cons_lt (find_eq_ok_iff.mp hk).2 hnew
  induction h generalizing depth' g after' with
  | nil depth seen =>
    cases h'
    exact ⟨rfl, rfl⟩
  | @pass depth item remaining seen after rest hpass hdraws ih =>
    cases h' with
    | pass _ hdraws' =>
      obtain ⟨rfl, rfl⟩ := ih hsound.tail hdraws' hdepth hdepth'
      exact ⟨rfl, rfl⟩
    | enter hdirectory hnew _ _ =>
      have hless := hroom hsound hdirectory hnew
      exact absurd ⟨hdirectory, by omega, hnew⟩ hpass
  | @enter depth item remaining seen between after inner rest hdirectory hnew hinner hdraws
      ihinner ihrest =>
    have hless := hroom hsound hdirectory hnew
    cases h' with
    | pass hpass _ => exact absurd ⟨hdirectory, by omega, hnew⟩ hpass
    | enter _ _ hinner' hdraws' =>
      obtain ⟨rfl, rfl⟩ := ihinner (areSound_items t item.path) hinner' (by omega) (by omega)
      have hmore : seen ⊆ between := fun k hk => hinner.subset (List.mem_cons_of_mem _ hk)
      have hfewer := unmarked_mono (t := t) hmore
      obtain ⟨rfl, rfl⟩ := ihrest hsound.tail hdraws' (by omega) (by omega)
      exact ⟨rfl, rfl⟩

/-! ## A drawing -/

/-- The first line is that of the root. -/
lemma drawTree_eq_cons (t : FileTree) (root : Path) (depth : Nat) :
    drawTree t root depth = (root.displayName ++ "/") :: (drawTree t root depth).tail := by
  cases depth with
  | zero =>
    rw [drawTree_zero]
    rfl
  | succ depth =>
    obtain ⟨f, after, -, hlines⟩ := exists_drawTree_eq t root depth
    rw [hlines]
    rfl

/-- Before anything is drawn, no directory but the root is marked. -/
lemma eq_mark_of_mem_firstMarks {k : List PathPart} (h : k ∈ firstMarks t root) : k = t.mark root := by
  unfold firstMarks at h
  unfold mark
  cases hreal : t.realPath root with
  | error reason => simp [hreal, Except.toOption] at h
  | ok q => simpa [hreal, Except.toOption] using h

/-- The root is marked if the file system can tell where it is. -/
lemma mem_firstMarks (hshort : HasShortPaths t) (h : t.find root = .ok (l, .directory)) :
    (pathOf l).parts ∈ firstMarks t root := by
  rw [firstMarks, (resolvesTo_of_find h (hshort l (find_eq_ok_iff.mp h).2)).realPath]
  exact List.mem_singleton_self _

/-- Whether lines are those of the entries of different directories, each entry with one line. -/
def ListOnce (t : FileTree) (rows : List String) : Prop :=
  ∃ listed : List Location, listed.Nodup ∧ (∀ l ∈ listed, t.entryAt? l = some .directory) ∧
    ∃ entries : List (Location × String), entries.Perm (entriesOf t listed) ∧
      List.Forall₂ IsLineOf entries rows

lemma listOnce_nil (t : FileTree) : ListOnce t [] :=
  ⟨[], .nil, by simp, [], by simp [entriesOf], .nil⟩

/-- A drawing lists different directories, and the entries of each once. -/
lemma listOnce_drawTree (hshort : HasShortPaths t) (root : Path) (depth : Nat) :
    ListOnce t (drawTree t root depth).tail := by
  cases depth with
  | zero =>
    rw [drawTree_zero]
    exact listOnce_nil t
  | succ depth =>
    obtain ⟨f, after, hdraws, hlines⟩ := exists_drawTree_eq t root depth
    rw [hlines, List.tail_cons]
    by_cases hroot : ∃ l, t.find root = .ok (l, .directory)
    · obtain ⟨l, hroot⟩ := hroot
      obtain ⟨listed, hlisted, hentries⟩ := hdraws.exists_listed hshort (areSound_items t root)
      obtain ⟨entries, hperm, hnames⟩ := hentries l
      refine ⟨l :: listed, List.nodup_cons.mpr ⟨fun hmem => ?_, hlisted.nodup⟩, ?_, entries, ?_, ?_⟩
      · exact hlisted.new l hmem (mem_firstMarks hshort hroot)
      · exact List.forall_mem_cons.mpr ⟨(find_eq_ok_iff.mp hroot).2, hlisted.directory⟩
      · have hitems := (names_items hroot).map (l, ·)
        rw [List.map_map] at hitems
        exact hperm.trans (hitems.append_right _)
      · have hrows := forall₂_lines f []
        rwa [← hnames, List.forall₂_map_left_iff] at hrows
    · rw [items_of_not_directory (not_exists.mp hroot)] at hdraws
      cases hdraws
      exact listOnce_nil t

/-- The entries that different directories have together are no more than those of all directories. -/
lemma length_entriesOf_le {listed : List Location} (hnodup : listed.Nodup)
    (hlisted : ∀ l ∈ listed, t.entryAt? l = some .directory) :
    (entriesOf t listed).length ≤ ((directories t).map fun l => (drawnNames t l).length).sum := by
  have hsub : listed.Subperm (directories t) :=
    List.subperm_of_subset hnodup fun l hl => mem_directories_iff.mpr (hlisted l hl)
  obtain ⟨ls, hperm, hsublist⟩ := hsub
  have hsum := (hsublist.map fun l => (drawnNames t l).length).sum_le_sum fun _ _ => Nat.zero_le _
  rw [(hperm.map _).sum_eq] at hsum
  rw [entriesOf, List.length_flatMap]
  simpa using hsum

lemma ListOnce.exists_name {rows : List String} {s : String} (h : ListOnce t rows) (hs : s ∈ rows) :
    ∃ l, ∃ name ∈ drawnNames t l, IsLineOf (l, name) s := by
  obtain ⟨listed, -, -, entries, hperm, hrows⟩ := h
  obtain ⟨⟨i, hi⟩, rfl⟩ := List.mem_iff_get.mp hs
  have hi' : i < entries.length := by rwa [hrows.length_eq]
  have hmem := hperm.mem_iff.mp (List.get_mem entries ⟨i, hi'⟩)
  obtain ⟨l, -, hentry⟩ := List.mem_flatMap.mp hmem
  obtain ⟨name, hname, heq⟩ := List.mem_map.mp hentry
  exact ⟨l, name, hname, heq ▸ hrows.get hi' hi⟩

/-- A directory with a link back up. -/
def looped : FileTree where
  entries := [(["a"], .directory), (["a", "up"], .link "..")]

/-- The entries of all directories are entries of the tree. -/
lemma sum_drawnNames_le (ht : t.WellFormed) :
    ((directories t).map fun l => (drawnNames t l).length).sum ≤ t.entries.length := by
  have hnodup : (entriesOf t (directories t)).Nodup := by
    refine List.nodup_flatMap.mpr ⟨fun l _ => ?_, (nodup_directories ht).imp ?_⟩
    · exact List.Nodup.map (fun _ _ heq => (Prod.mk.inj heq).2) (nodup_drawnNames ht l)
    · intro l m hne entry hl hm
      obtain ⟨_, -, rfl⟩ := List.mem_map.mp hl
      obtain ⟨_, -, heq⟩ := List.mem_map.mp hm
      exact hne (Prod.mk.inj heq).1.symm
  have hplaces : ((entriesOf t (directories t)).map fun entry => entry.1 ++ [entry.2]).Nodup := by
    refine List.Nodup.map (fun a b heq => ?_) hnodup
    obtain ⟨hfront, hlast⟩ := List.append_inj' heq rfl
    exact Prod.ext hfront (List.singleton_inj.mp hlast)
  have hsub : ((entriesOf t (directories t)).map fun entry => entry.1 ++ [entry.2]) ⊆
      t.entries.map (·.1) := by
    intro place hplace
    obtain ⟨entry, hentry, rfl⟩ := List.mem_map.mp hplace
    obtain ⟨l, -, hpair⟩ := List.mem_flatMap.mp hentry
    obtain ⟨name, hname, rfl⟩ := List.mem_map.mp hpair
    obtain ⟨e, he⟩ := Option.isSome_iff_exists.mp (mem_drawnNames_iff.mp hname).1
    exact List.mem_map_of_mem (mem_of_entryAt? (by simp) he)
  have hle := (List.subperm_of_subset hplaces hsub).length_le
  rw [List.length_map, List.length_map, entriesOf, List.length_flatMap] at hle
  simpa using hle

/-- The file system does not tell where the paths lead, so each has a mark of its own. -/
lemma length_mark_linkedPath {n : Nat} (hn : n ≤ 38) :
    (deepTree.mark (linkedPath n)).length = n + 2 := by
  have hfind := find_linkedPath hn
  have hparts : (linkedPath n).parts.length = n + 2 := by
    rw [linkedPath, parts_pathOf (isPlainName_linked n)]
    simp
  cases hreal : deepTree.realPath (linkedPath n) with
  | error reason =>
    rw [mark, hreal]
    exact hparts
  | ok q =>
    have hsize := (resolvesTo_of_realPath hreal hfind).1.size_le
    exact absurd size_farDown (Nat.not_lt.mpr hsize)

lemma children_farDown : deepTree.children (farDown 17) = ["y"] := by
  refine List.perm_singleton.mp ((List.perm_ext_iff_of_nodup
    (wellFormed_deepTree.nodup_children _) (List.nodup_singleton _)).mpr fun name => ?_)
  rw [mem_children_iff, List.mem_singleton]
  constructor
  · intro h
    obtain ⟨e, he⟩ := Option.isSome_iff_exists.mp h
    have hmem := mem_of_entryAt? (by simp) he
    have hlength := length_below_farDown name
    simp only [deepTree, List.mem_cons, List.mem_map, Prod.mk.injEq] at hmem
    rcases hmem with ⟨heq, -⟩ | ⟨heq, -⟩ | ⟨heq, -⟩ | ⟨k, hk, heq, -⟩
    · rw [heq] at hlength
      cases hlength
    · rw [heq] at hlength
      cases hlength
    · exact List.singleton_inj.mp (List.append_cancel_left heq)
    · rw [← heq, length_farDown] at hlength
      rw [List.mem_range] at hk
      omega
  · rintro rfl
    rw [entryAt?_of_mem nodup_deepTree (e := .link ".") (by simp) (by simp [deepTree])]
    rfl

lemma items_linkedPath {n : Nat} (hn : n + 1 ≤ 38) :
    items deepTree (linkedPath n) = [⟨"y", linkedPath (n + 1), true⟩] := by
  have hdirectory : deepTree.isDirectory (linkedPath (n + 1)) = true :=
    isDirectory_iff.mpr ⟨_, find_linkedPath hn⟩
  have hdrawn : isDrawn "y" = true := by decide
  unfold items
  rw [listDirectory_of_find (find_linkedPath (Nat.le_of_succ_le hn)), children_farDown]
  simp [Except.toOption, hdrawn, ← linkedPath_succ, hdirectory]

/-- The same directory is listed over and over. -/
lemma length_lines_linkedPath {n : Nat} (h : Draws deepTree depth (items deepTree (linkedPath n)) seen
      f after) (hn : n + 1 + depth ≤ 38) (hseen : ∀ k ∈ seen, k.length ≤ n + 2) (margin : String) :
    (f.lines margin).length = depth + 1 := by
  induction depth generalizing n seen after f margin with
  | zero =>
    rw [items_linkedPath (by omega)] at h
    cases h with
    | pass _ hrest =>
      cases hrest
      rfl
  | succ depth ih =>
    rw [items_linkedPath (by omega)] at h
    have hmark := length_mark_linkedPath (n := n + 1) (by omega)
    cases h with
    | pass hpass hrest =>
      refine absurd ⟨rfl, by simp, fun hmem => ?_⟩ hpass
      have hlength : (deepTree.mark (linkedPath (n + 1))).length ≤ n + 2 := hseen _ hmem
      omega
    | enter _ _ hinner hrest =>
      cases hrest
      have hbelow := ih hinner (by omega) (by
        intro k hk
        rcases List.mem_cons.mp hk with rfl | hk
        · exact hmark.le
        · exact (hseen k hk).trans (by omega)) (innerMargin margin true)
      simpa [Sketch.lines, Sketch.isNil] using hbelow

lemma length_drawTree_linkedPath {depth : Nat} (hdepth : depth < 38) :
    (drawTree deepTree (linkedPath 0) (depth + 1)).length = depth + 2 := by
  obtain ⟨f, after, hdraws, hlines⟩ := exists_drawTree_eq deepTree (linkedPath 0) depth
  have hseen : ∀ k ∈ firstMarks deepTree (linkedPath 0), k.length ≤ 0 + 2 := by
    intro k hk
    rw [eq_mark_of_mem_firstMarks hk]
    exact (length_mark_linkedPath (by omega)).le
  rw [hlines, List.length_cons, length_lines_linkedPath hdraws (by omega) hseen]

/-- A file whose name takes two lines. -/
def brokenName : FileTree where
  entries := [(["a\nb"], .file ⟨#[]⟩ 0)]

lemma drawTree_brokenName : drawTree brokenName ⟨"/"⟩ 1 = ["//", "└── a\nb"] := by
  have hfile : brokenName.find (Path.follow ⟨"/"⟩ ["a\nb"]) = .ok ([] ++ ["a\nb"], .file ⟨#[]⟩ 0) :=
    find_follow_of_entry (by decide) (find_slash _) rfl (by simp) (by decide)
  have hdirectory : brokenName.isDirectory ((⟨"/"⟩ : Path).join ⟨"a\nb"⟩) = false := by
    unfold isDirectory
    rw [← Path.follow_nil ((⟨"/"⟩ : Path).join ⟨"a\nb"⟩), ← Path.follow_cons, hfile]
    rfl
  have hchildren : brokenName.children [] = ["a\nb"] := rfl
  have hdrawn : isDrawn "a\nb" = true := by decide
  obtain ⟨f, after, hdraws, hlines⟩ := exists_drawTree_eq brokenName ⟨"/"⟩ 0
  have hitems : items brokenName ⟨"/"⟩ = [⟨"a\nb", (⟨"/"⟩ : Path).join ⟨"a\nb"⟩, false⟩] := by
    unfold items
    rw [listDirectory_of_find (find_slash _), hchildren]
    simp [Except.toOption, hdrawn, hdirectory]
  rw [hitems] at hdraws
  cases hdraws with
  | pass _ hrest =>
    cases hrest
    rw [hlines]
    decide

end DirectoryNotes.Drawing
