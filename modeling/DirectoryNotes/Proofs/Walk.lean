import DirectoryNotes.Proofs.FileTree.Marks
import DirectoryNotes.Proofs.Walk.Visits
import Mathlib.Data.List.Sort

/-!
# What a walk lists

In a project without links a walk descends name by name, so what it lists is the root continued by
names that are not hidden and that the filter includes:

* `walk_eq_map_follow`: all that is listed, in the order of the list;
* `mem_walk_iff`, `mem_walk`: what is listed, as a path and as a place in the tree;
* `walk_eq_of_directories`: nothing but the directories of a tree decides what is listed.
-/

namespace DirectoryNotes

open FileTree

variable {t : FileTree} {filter : IgnoreFilter} {root d : Path} {l names : Location} {v : Visited}

/-- The names that lead from a location down to what is visited below it. -/
def Visited.namesBelow (l : Location) (v : Visited) : Location := v.location.drop l.length

lemma Visited.namesBelow_eq (h : v.location = l ++ names) : v.namesBelow l = names := by
  rw [namesBelow, h, List.drop_left]

/-- What is visited in a project lies below the root, as its path says. -/
lemma namesBelow_of_mem_visits (ht : t.IsProject root l)
    (hv : v ∈ t.visitBelow true (listedBy filter root) [l] 1 root l) :
    v.namesBelow l ≠ [] ∧ v.path = root.follow (v.namesBelow l) ∧
      v.location = l ++ v.namesBelow l ∧
      t.entryAt? (l ++ v.namesBelow l) = some .directory ∧ AdmitsAbove root (v.namesBelow l) ∧
      filter.Passes (v.namesBelow l) := by
  have hdirectory := (find_eq_ok_iff.mp ht.root).2
  obtain ⟨names, hne, hpath, hpasses, hdescend⟩ := descend?_of_mem_visits ht.wellFormed ht.root hv
  rw [descend?_linkFree_iff ht.linkFree ht.wellFormed hdirectory] at hdescend
  obtain ⟨hlocation, hentry, habove⟩ := hdescend
  rw [Visited.namesBelow_eq hlocation]
  exact ⟨hne, hpath, hlocation, hentry, habove, hpasses⟩

/-- What is visited in a project comes in order. -/
lemma pairwise_visits (ht : t.IsProject root l) :
    (t.visitBelow true (listedBy filter root) [l] 1 root l).Pairwise fun v w =>
      Precedes v.location w.location :=
  pairwise_visitBelow (fun _ => isDirectory_of_listedBy) ht.linkFree ht.wellFormed

/-- In a project a walk lists all that it visits: what comes in order differs, so nothing is left
out. -/
lemma walk_eq_visits (ht : t.IsProject root l) : walk t filter root =
    root :: (t.visitBelow true (listedBy filter root) [l] 1 root l).map (·.path) := by
  have hdirectory : t.entryAt? (l ++ []) = some .directory := by
    rw [List.append_nil]
    exact (find_eq_ok_iff.mp ht.root).2
  have hnew : ∀ v ∈ t.visitBelow true (listedBy filter root) [l] 1 root l,
      t.mark v.path ∉ [t.mark root] := by
    intro v hv hmem
    obtain ⟨hne, hpath, -, hentry, -⟩ := namesBelow_of_mem_visits ht hv
    rw [List.mem_singleton, hpath] at hmem
    exact hne (mark_inj ht hentry hdirectory hmem)
  have hdistinct : (t.visitBelow true (listedBy filter root) [l] 1 root l).Pairwise fun v w =>
      t.mark v.path ≠ t.mark w.path := by
    refine (pairwise_visits ht).imp_of_mem ?_
    intro v w hv hw hvw heq
    obtain ⟨-, hpath, hlocation, hentry, -⟩ := namesBelow_of_mem_visits ht hv
    obtain ⟨-, hpath', hlocation', hentry', -⟩ := namesBelow_of_mem_visits ht hw
    rw [hpath, hpath'] at heq
    rw [hlocation, hlocation', mark_inj ht hentry hentry' heq] at hvw
    exact not_precedes_self _ hvw
  rw [walk_eq ht.root, firstVisits_eq_self hnew hdistinct]

/-- In a project a walk lists the directories that names lead to along which it goes down and which
can be read, each once and before what is below it, and names in the order of their bytes. -/
theorem walk_eq_map_follow (ht : t.IsProject root l) :
    ∃ below : List Location, walk t filter root = below.map root.follow ∧
      (∀ names, names ∈ below ↔
        t.entryAt? (l ++ names) = some .directory ∧ AdmitsAbove root names ∧ filter.Passes names) ∧
      below.Pairwise Precedes := by
  have hdirectory := (find_eq_ok_iff.mp ht.root).2
  refine ⟨[] :: (t.visitBelow true (listedBy filter root) [l] 1 root l).map (·.namesBelow l),
    ?_, ?_, ?_⟩
  · rw [walk_eq_visits ht, List.map_cons, List.map_map, Path.follow_nil]
    congr 1
    exact List.map_congr_left fun v hv => (namesBelow_of_mem_visits ht hv).2.1
  · intro names
    constructor
    · intro hmem
      rcases List.mem_cons.mp hmem with rfl | hmem
      · rw [List.append_nil]
        exact ⟨hdirectory, admitsAbove_nil root, passes_nil filter⟩
      · obtain ⟨v, hv, rfl⟩ := List.mem_map.mp hmem
        exact (namesBelow_of_mem_visits ht hv).2.2.2
    · intro ⟨hentry, habove, hpasses⟩
      by_cases hne : names = []
      · exact hne ▸ List.mem_cons_self
      · have hdescend : t.descend? [l] root l names = some (l ++ names) :=
          (descend?_linkFree_iff ht.linkFree ht.wellFormed hdirectory).mpr ⟨rfl, hentry, habove⟩
        obtain ⟨v, hv, -, hlocation⟩ := exists_mem_visits ht.wellFormed ht.root hpasses hne hdescend
        exact List.mem_cons_of_mem _ (List.mem_map.mpr ⟨v, hv, Visited.namesBelow_eq hlocation⟩)
  · refine .cons ?_ ?_
    · intro names hmem
      obtain ⟨v, hv, rfl⟩ := List.mem_map.mp hmem
      exact precedes_append [] (namesBelow_of_mem_visits ht hv).1
    · rw [List.pairwise_map]
      refine (pairwise_visits ht).imp_of_mem ?_
      intro v w hv hw hvw
      rw [(namesBelow_of_mem_visits ht hv).2.2.1, (namesBelow_of_mem_visits ht hw).2.2.1] at hvw
      exact precedes_append_left_iff.mp hvw

/-- In a project a walk lists the directories that names lead to along which it goes down and which
can be read. -/
theorem mem_walk_iff (ht : t.IsProject root l) : d ∈ walk t filter root ↔
    ∃ names, d = root.follow names ∧ t.entryAt? (l ++ names) = some .directory ∧
      AdmitsAbove root names ∧ filter.Passes names := by
  obtain ⟨below, hwalk, hbelow, -⟩ := walk_eq_map_follow ht
  rw [hwalk, List.mem_map]
  constructor
  · intro ⟨names, hmem, heq⟩
    exact ⟨names, heq.symm, (hbelow names).mp hmem⟩
  · intro ⟨names, heq, hnames⟩
    exact ⟨names, (hbelow names).mpr hnames, heq.symm⟩

/-- A directory that a walk lists: where it lies below the root, and that it is shown. -/
structure IsShown (t : FileTree) (filter : IgnoreFilter) (root : Path) (l names : Location) :
    Prop where
  plain : ∀ n ∈ names, IsPlainName n
  directory : t.entryAt? (l ++ names) = some .directory
  visible : ∀ n ∈ names, FileName.isHidden n = false
  included : names ≠ [] → filter.includes (.ofNames names) true = true

/-- A walk lists directories that are shown. -/
theorem mem_walk (ht : t.IsProject root l) (h : d ∈ walk t filter root) :
    ∃ names, d = root.follow names ∧ IsShown t filter root l names := by
  obtain ⟨names, rfl, hentry, -, hpasses⟩ := (mem_walk_iff ht).mp h
  refine ⟨names, rfl, ?_⟩
  constructor
  case plain =>
    exact fun n hn =>
      (ht.wellFormed.isEntryName hentry n (List.mem_append_right _ hn)).toIsPlainName
  case directory => exact hentry
  case visible => exact hpasses.visible
  case included => exact hpasses.included names (List.prefix_refl _)

/-- Projects with the same directories have the same walk. -/
theorem walk_eq_of_directories {t' : FileTree} (ht : t.IsProject root l) (ht' : t'.IsProject root l)
    (h : ∀ m, t'.entryAt? m = some .directory ↔ t.entryAt? m = some .directory) :
    walk t' filter root = walk t filter root := by
  obtain ⟨below, hwalk, hbelow, hordered⟩ := @walk_eq_map_follow t filter root l ht
  obtain ⟨below', hwalk', hbelow', hordered'⟩ := @walk_eq_map_follow t' filter root l ht'
  have hsame : below' = below := by
    refine hordered'.eq_of_mem_iff hordered fun names => ?_
    rw [hbelow', hbelow, h]
  rw [hwalk', hwalk, hsame]

/-- The root is always listed. -/
lemma root_mem_walk (ht : t.IsProject root l) : root ∈ walk t filter root := by
  rw [walk_eq ht.root]
  exact List.mem_cons_self

end DirectoryNotes
