import DirectoryNotes.Proofs.FileTree.Marks
import Mathlib.Algebra.Order.BigOperators.Group.List
import Mathlib.Data.List.Nodup

/-!
# A directory far down

Directories lie in one another until the path of the last of them is too long for the file system,
but links lead there on short paths:

* `deepTree`: the tree. `wellFormed_deepTree` and `entryAt?_farDown` say what stands where;
* `size_farDown`: the path of the last directory is too long;
* `find_linkedPath`: short paths that lead there, as many as one likes.
-/

namespace DirectoryNotes.FileTree

/-- A long name. -/
def longName : String := .ofList (List.replicate 250 'd')

/-- Directories of a long name in one another. -/
def farDown (n : Nat) : Location := List.replicate n longName

/-- Directories in one another, so many that the file system cannot tell the path of the last one. Two
links lead there one over the other, and a link in it leads to itself. -/
def deepTree : FileTree where
  entries := (["s"], .link (pathOf (farDown 9)).text) ::
    (["x"], .link (pathOf ("s" :: farDown 8)).text) :: (farDown 17 ++ ["y"], .link ".") ::
      (List.range 17).map fun n => (farDown (n + 1), .directory)

lemma length_farDown (n : Nat) : (farDown n).length = n := List.length_replicate

lemma mem_entries_deepTree {n : Nat} (hn : n < 17) :
    (farDown (n + 1), Entry.directory) ∈ deepTree.entries := by
  refine List.mem_cons_of_mem _ (List.mem_cons_of_mem _ (List.mem_cons_of_mem _ ?_))
  exact List.mem_map.mpr ⟨n, List.mem_range.mpr hn, rfl⟩

lemma toList_longName : longName.toList = List.replicate 250 'd' := String.toList_ofList

lemma size_longName : longName.utf8ByteSize = 250 := Text.utf8ByteSize_replicate 'd' 250

lemma ne_longName {name : String} (h : name.toList.length ≠ 250) : name ≠ longName := by
  intro heq
  exact h (by rw [heq, toList_longName, List.length_replicate])

lemma isEntryName_longName : IsEntryName longName where
  ne_empty := (ne_longName (by decide)).symm
  ne_here := (ne_longName (by decide)).symm
  ne_up := (ne_longName (by decide)).symm
  no_slash hmem := absurd (List.eq_of_mem_replicate (toList_longName ▸ hmem)) (by decide)
  no_null hmem := absurd (List.eq_of_mem_replicate (toList_longName ▸ hmem)) (by decide)
  size_le := by
    rw [size_longName]
    decide

lemma isHidden_longName : FileName.isHidden longName = false := by
  rw [FileName.isHidden, toList_longName]
  rfl

lemma isEntryName_farDown (n : Nat) : ∀ name ∈ farDown n, IsEntryName name :=
  fun _ hname => List.eq_of_mem_replicate hname ▸ isEntryName_longName

lemma singleton_ne_farDown {name : String} (h : name.toList.length ≠ 250) (n : Nat) :
    [name] ≠ farDown (n + 1) := by
  intro heq
  rw [farDown, List.replicate_succ, List.cons.injEq] at heq
  exact ne_longName h heq.1

lemma length_below_farDown (name : String) : (farDown 17 ++ [name]).length = 18 := by
  rw [List.length_append, length_farDown, List.length_singleton]

lemma nodup_deepTree : (deepTree.entries.map (·.1)).Nodup := by
  have hchain : ((List.range 17).map fun n => farDown (n + 1)).Nodup := by
    refine List.Nodup.map (fun m n heq => ?_) List.nodup_range
    have hlength := congrArg List.length heq
    rw [length_farDown, length_farDown] at hlength
    omega
  have hkeys : deepTree.entries.map (·.1) = ["s"] :: ["x"] :: (farDown 17 ++ ["y"]) ::
      (List.range 17).map fun n => farDown (n + 1) := by
    rw [deepTree, List.map_cons, List.map_cons, List.map_cons, List.map_map]
    rfl
  have hsingle : ∀ {name : String}, name.toList.length ≠ 250 →
      [name] ∉ (farDown 17 ++ ["y"]) :: (List.range 17).map fun n => farDown (n + 1) := by
    intro name hname hmem
    rcases List.mem_cons.mp hmem with heq | hmem
    · have hlength := congrArg List.length heq
      rw [length_below_farDown, List.length_singleton] at hlength
      omega
    · obtain ⟨n, -, heq⟩ := List.mem_map.mp hmem
      exact singleton_ne_farDown hname n heq.symm
  rw [hkeys, List.nodup_cons, List.nodup_cons, List.nodup_cons, List.mem_cons, not_or]
  refine ⟨⟨by decide, hsingle (by decide)⟩, hsingle (by decide), fun hmem => ?_, hchain⟩
  obtain ⟨n, hn, heq⟩ := List.mem_map.mp hmem
  have hlength := congrArg List.length heq
  rw [length_below_farDown, length_farDown] at hlength
  rw [List.mem_range] at hn
  omega

lemma entryAt?_farDown {n : Nat} (hn : n ≤ 17) : deepTree.entryAt? (farDown n) = some .directory := by
  cases n with
  | zero => rfl
  | succ n =>
    have hne : farDown (n + 1) ≠ [] := List.cons_ne_nil longName _
    exact entryAt?_of_mem nodup_deepTree hne (mem_entries_deepTree hn)

lemma wellFormed_deepTree : deepTree.WellFormed where
  nodup := nodup_deepTree
  names := by
    intro x hx
    simp only [deepTree, List.mem_cons, List.mem_map] at hx
    rcases hx with rfl | rfl | rfl | ⟨n, -, rfl⟩
    · decide
    · decide
    · intro name hname
      rcases List.mem_append.mp hname with hname | hname
      · exact isEntryName_farDown 17 name hname
      · rw [List.mem_singleton.mp hname]
        decide
    · exact isEntryName_farDown (n + 1)
  parents := by
    intro x hx
    rw [any_isDirectory_iff]
    simp only [deepTree, List.mem_cons, List.mem_map] at hx
    rcases hx with rfl | rfl | rfl | ⟨n, hn, rfl⟩
    · rfl
    · rfl
    · rw [List.dropLast_concat]
      exact entryAt?_farDown (Nat.le_refl 17)
    · rw [farDown, List.dropLast_replicate]
      exact entryAt?_farDown (by simpa using Nat.le_of_lt (List.mem_range.mp hn))

/-- However often the last link is followed, it leads to the last directory. -/
lemma walk_deepTree {links n : Nat} (hn : n ≤ links) :
    deepTree.walk links (farDown 17) (List.replicate n "y") = .ok (farDown 17) := by
  have hlink : deepTree.entryAt? (farDown 17 ++ ["y"]) = some (.link ".") :=
    entryAt?_of_mem nodup_deepTree (by simp) (by simp [deepTree])
  have hdir := entryAt?_farDown (Nat.le_refl 17)
  have hsegments : segments "." = ["."] := by decide
  have hstart : startOf "." (farDown 17) = farDown 17 := by simp [startOf]
  induction n generalizing links with
  | zero => exact walk_nil ..
  | succ n ih =>
    obtain ⟨links, rfl⟩ := Nat.exists_eq_succ_of_ne_zero (Nat.ne_zero_of_lt hn)
    rw [List.replicate_succ, Nat.succ_eq_add_one,
      walk_of_link hdir (by decide) (by decide) (by decide) hlink, hsegments, hstart,
      List.singleton_append, walk_of_idle hdir (.inr rfl)]
    exact ih (Nat.le_of_succ_le_succ hn)

/-- The path on which the last link was followed a number of times. -/
def linkedPath (n : Nat) : Path := pathOf ("x" :: List.replicate n "y")

lemma isEntryName_linked (n : Nat) : ∀ name ∈ "x" :: List.replicate n "y", IsEntryName name := by
  intro name hname
  rcases List.mem_cons.mp hname with rfl | hname
  · decide
  · rw [List.eq_of_mem_replicate hname]
    decide

lemma isPlainName_linked (n : Nat) : ∀ name ∈ "x" :: List.replicate n "y", IsPlainName name :=
  fun name hname => (isEntryName_linked n name hname).toIsPlainName

lemma linkedPath_succ (n : Nat) : linkedPath (n + 1) = (linkedPath n).join ⟨"y"⟩ := by
  have hnames : "x" :: List.replicate (n + 1) "y" = "x" :: List.replicate n "y" ++ ["y"] := by
    rw [List.replicate_succ']
    rfl
  rw [linkedPath, hnames, pathOf_append (hnames ▸ isPlainName_linked (n + 1))]
  rfl

lemma isAdmitted_linkedPath {n : Nat} (hn : n ≤ 38) : (linkedPath n).IsAdmitted := by
  have hsize : (linkedPath n).text.utf8ByteSize = 2 * n + 2 := by
    have hx : "x".utf8ByteSize = 1 := rfl
    have hy : "y".utf8ByteSize = 1 := rfl
    rw [linkedPath, size_pathOf (List.cons_ne_nil _ _), List.map_cons, List.map_replicate,
      List.sum_cons, List.sum_replicate, hx, hy]
    simp [Nat.mul_comm, Nat.add_comm]
  rw [linkedPath, pathOf_eq_follow (isPlainName_linked n)] at hsize ⊢
  refine isAdmitted_follow (by decide) (isEntryName_linked n) ?_
  rw [hsize, pathLimit]
  omega

lemma entryAt?_s : deepTree.entryAt? ([] ++ ["s"]) = some (.link (pathOf (farDown 9)).text) := rfl

lemma segments_farDown {n : Nat} (hn : n ≠ 0) : segments (pathOf (farDown n)).text = farDown n :=
  segments_pathOf (by simpa [farDown] using hn)
    fun name hname => (isEntryName_farDown n name hname).toIsPlainName

lemma walk_farDown (links n m : Nat) (hnm : n + m ≤ 17) :
    deepTree.walk links (farDown n) (farDown m) = .ok (farDown (n + m)) := by
  have hfar : farDown n ++ farDown m = farDown (n + m) := List.replicate_append_replicate
  have hdir := entryAt?_farDown hnm
  rw [← hfar] at hdir ⊢
  exact walk_down wellFormed_deepTree hdir (by simp)

lemma isEntryName_s (n : Nat) : ∀ name ∈ "s" :: farDown n, IsEntryName name :=
  List.forall_mem_cons.mpr ⟨by decide, isEntryName_farDown n⟩

/-- On the way over the first link the path of the last directory is short. -/
lemma isAdmitted_s : (Path.follow ⟨"/"⟩ ("s" :: farDown 8)).IsAdmitted := by
  have hplain := fun name hname => (isEntryName_s 8 name hname).toIsPlainName
  have hs : "s".utf8ByteSize = 1 := rfl
  refine isAdmitted_follow (by decide) (isEntryName_s 8) ?_
  rw [← pathOf_eq_follow hplain, size_pathOf (List.cons_ne_nil _ _), farDown, List.map_cons,
    List.map_replicate, List.sum_cons, List.sum_replicate, size_longName, hs]
  decide

/-- The first link leads half the way down. -/
lemma find_s : deepTree.find (pathOf ["s"]) = .ok (farDown 9, .directory) := by
  have hadmitted : (pathOf ["s"]).IsAdmitted := by decide
  refine find_eq_ok_iff.mpr ⟨?_, entryAt?_farDown (by decide)⟩
  rw [locate_of_admitted _ hadmitted, startOf_pathOf, segments_pathOf (by decide) (by decide),
    linkLimit, walk_of_link rfl (by decide) (by decide) (by decide) entryAt?_s,
    segments_farDown (by decide), startOf_pathOf, List.append_nil]
  exact walk_farDown 39 0 9 (by decide)

lemma find_linkedPath {n : Nat} (hn : n ≤ 38) :
    deepTree.find (linkedPath n) = .ok (farDown 17, .directory) := by
  have hx : deepTree.entryAt? ([] ++ ["x"]) = some (.link (pathOf ("s" :: farDown 8)).text) := rfl
  have hplain := fun name hname => (isEntryName_s 8 name hname).toIsPlainName
  have hfirst : segments (pathOf ("s" :: farDown 8)).text = "s" :: farDown 8 :=
    segments_pathOf (List.cons_ne_nil _ _) hplain
  have hfar : farDown 9 ++ farDown 8 = farDown 17 := List.replicate_append_replicate
  refine find_eq_ok_iff.mpr ⟨?_, entryAt?_farDown (Nat.le_refl 17)⟩
  -- over two links to the last directory, and then over as many links as there are names
  rw [locate_of_admitted _ (isAdmitted_linkedPath hn), linkedPath, startOf_pathOf,
    segments_pathOf (by simp) (isPlainName_linked n), linkLimit,
    walk_of_link rfl (by decide) (by decide) (by decide) hx, hfirst, startOf_pathOf,
    List.cons_append, walk_of_link rfl (by decide) (by decide) (by decide) entryAt?_s,
    segments_farDown (by decide), startOf_pathOf, ← List.append_assoc, hfar, walk_through]
  · exact walk_deepTree hn
  · exact isEntryName_farDown 17
  · intro front hfront
    obtain ⟨hlength, hfront⟩ := List.prefix_replicate_iff.mp hfront
    rw [hfront]
    exact entryAt?_farDown hlength

lemma size_farDown : pathLimit < (pathOf (farDown 17)).text.utf8ByteSize := by
  have hne : farDown 17 ≠ [] := by simp [farDown]
  rw [size_pathOf hne, farDown, List.map_replicate, size_longName, List.sum_replicate]
  decide

end DirectoryNotes.FileTree
