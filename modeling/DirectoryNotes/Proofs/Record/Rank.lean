import DirectoryNotes.Record.Basic
import Mathlib.Data.List.FinRange
import Mathlib.Data.List.Nodup
import Mathlib.Data.List.TakeWhile

/-!
# The ranking of files

A ranking sorts files by their importance, leaves those of one importance in their order, and keeps
the first ten:

* `pairwise_mergeSort_falling`, `eq_of_filter_eq`: what a stable sort is. It keeps any order among
  things of one key, and it is the only sorted list that has the things of each key in their order;
* `Outranks`, `pairwise_rank`: in a ranking each file outranks those after it, by any order that the
  files were given in;
* `outranks_of_notMem_rank`: what is left out is outranked by all that is kept;
* `exists_sorted_concat`: where one more file comes in;
* `rank_keeps_first_ten`: which positions a ranking keeps, and when one more file changes it.
-/

namespace DirectoryNotes.FileSummary

/-! ## Stable sorting -/

section
variable {α : Type} {key : α → UInt8} {xs ys : List α} {R : α → α → Prop}

/-- Whether one thing may stand before another where keys fall. -/
def isAtLeast (key : α → UInt8) (x y : α) : Bool := key y ≤ key x

lemma isAtLeast_trans (x y z : α) (hxy : isAtLeast key x y = true) (hyz : isAtLeast key y z = true) :
    isAtLeast key x z = true :=
  decide_eq_true (UInt8.le_trans (of_decide_eq_true hyz) (of_decide_eq_true hxy))

lemma isAtLeast_total (x y : α) : (isAtLeast key x y || isAtLeast key y x) = true := by
  simpa [isAtLeast] using UInt8.le_total (key y) (key x)

/-- Sorted by falling keys, things are in falling order, and those of one key are in the order that
they were given in. -/
theorem pairwise_mergeSort_falling (h : xs.Pairwise R) :
    (xs.mergeSort (isAtLeast key)).Pairwise fun x y => key y < key x ∨ key x = key y ∧ R x y := by
  -- with their positions no two things are equal, so the order of positions decides
  have hpositions : (xs.zipIdx.mergeSort (List.zipIdxLE (isAtLeast key))).Pairwise fun x y =>
      List.zipIdxLE (isAtLeast key) x y = true ∧ x.2 ≠ y.2 := by
    refine (List.pairwise_mergeSort (List.zipIdxLE_trans isAtLeast_trans)
      (List.zipIdxLE_total isAtLeast_total) _).and ?_
    have hnodup : (xs.zipIdx.map Prod.snd).Nodup := by
      rw [List.zipIdx_map_snd]
      exact List.nodup_range'
    exact List.pairwise_map.mp
      (((List.mergeSort_perm xs.zipIdx _).map Prod.snd).nodup_iff.mpr hnodup)
  rw [← List.mergeSort_zipIdx, List.pairwise_map]
  refine hpositions.imp_of_mem ?_
  rintro ⟨x, i⟩ ⟨y, j⟩ hx hy ⟨hle, hne⟩
  have hxi := List.mk_mem_zipIdx_iff_getElem?.mp (List.mem_mergeSort.mp hx)
  have hyj := List.mk_mem_zipIdx_iff_getElem?.mp (List.mem_mergeSort.mp hy)
  unfold List.zipIdxLE at hle
  dsimp only at hle hne
  split at hle
  · next hxy =>
    by_cases hyx : isAtLeast key y x = true
    · rw [if_pos hyx, decide_eq_true_eq] at hle
      refine .inr ⟨UInt8.le_antisymm (of_decide_eq_true hyx) (of_decide_eq_true hxy), ?_⟩
      obtain ⟨hi, rfl⟩ := List.getElem?_eq_some_iff.mp hxi
      obtain ⟨hj, rfl⟩ := List.getElem?_eq_some_iff.mp hyj
      exact List.pairwise_iff_getElem.mp h i j hi hj (Nat.lt_of_le_of_ne hle hne)
    · exact .inl (UInt8.not_le.mp fun hle => hyx (decide_eq_true hle))
  · cases hle

/-- Things of one key come out of the sort as they went in. -/
lemma filter_mergeSort (m : UInt8) :
    (xs.mergeSort (isAtLeast key)).filter (key · = m) = xs.filter (key · = m) := by
  have hsorted : (xs.filter (key · = m)).Pairwise fun x y => isAtLeast key x y = true := by
    refine List.pairwise_of_forall_mem_list fun x hx y hy => decide_eq_true ?_
    rw [of_decide_eq_true (List.mem_filter.mp hx).2, of_decide_eq_true (List.mem_filter.mp hy).2]
    exact UInt8.le_refl m
  have hkept := (List.sublist_mergeSort isAtLeast_trans isAtLeast_total hsorted
    List.filter_sublist).filter (key · = m)
  simp only [List.filter_filter, Bool.and_self] at hkept
  exact (hkept.eq_of_length ((List.mergeSort_perm xs _).filter _).length_eq.symm).symm

lemma mem_iff_of_filter_eq (h : ∀ m, xs.filter (key · = m) = ys.filter (key · = m)) (x : α) :
    x ∈ xs ↔ x ∈ ys := by
  have hx := congrArg (x ∈ ·) (h (key x))
  simpa using hx

lemma le_of_mem_falling {x y : α} (h : (x :: xs).Pairwise fun x y => key y ≤ key x)
    (hy : y ∈ x :: xs) : key y ≤ key x := by
  rcases List.mem_cons.mp hy with rfl | hy
  · exact UInt8.le_refl _
  · exact List.rel_of_pairwise_cons h hy

/-- Of the lists with falling keys, only one has the same things of each key in the same order. -/
lemma eq_of_filter_eq (hxs : xs.Pairwise fun x y => key y ≤ key x)
    (hys : ys.Pairwise fun x y => key y ≤ key x)
    (h : ∀ m, xs.filter (key · = m) = ys.filter (key · = m)) : xs = ys := by
  induction xs generalizing ys with
  | nil => exact (List.eq_nil_iff_forall_not_mem.mpr fun y hy =>
      List.not_mem_nil ((mem_iff_of_filter_eq h y).mpr hy)).symm
  | cons x xs ih =>
    cases ys with
    | nil => exact absurd ((mem_iff_of_filter_eq h x).mp List.mem_cons_self) List.not_mem_nil
    | cons y ys =>
      have hkey : key x = key y := UInt8.le_antisymm
        (le_of_mem_falling hys ((mem_iff_of_filter_eq h x).mp List.mem_cons_self))
        (le_of_mem_falling hxs ((mem_iff_of_filter_eq h y).mpr List.mem_cons_self))
      have hhead := h (key x)
      rw [List.filter_cons_of_pos (by simp), List.filter_cons_of_pos (by simp [hkey])] at hhead
      obtain rfl := (List.cons.inj hhead).1
      rw [ih hxs.of_cons hys.of_cons fun m => ?_]
      have hm := h m
      by_cases hx : key x = m
      · rw [List.filter_cons_of_pos (by simp [hx]), List.filter_cons_of_pos (by simp [hx])] at hm
        exact (List.cons.inj hm).2
      · rwa [List.filter_cons_of_neg (by simp [hx]), List.filter_cons_of_neg (by simp [hx])] at hm

/-- Where keys fall, all that is left after the first smaller key is smaller. -/
lemma lt_of_mem_dropWhile {m : UInt8} {x : α} (h : xs.Pairwise fun x y => key y ≤ key x)
    (hx : x ∈ xs.dropWhile (m ≤ key ·)) : key x < m := by
  cases hrest : xs.dropWhile (m ≤ key ·) with
  | nil => simp [hrest] at hx
  | cons y rest =>
    have hy : key y < m := by
      have hhead := List.head_dropWhile_not (m ≤ key ·) (l := xs) (by simp [hrest])
      simpa [hrest] using hhead
    have hfalling := h.sublist (List.dropWhile_sublist (m ≤ key ·))
    rw [hrest] at hx hfalling
    rcases List.mem_cons.mp hx with rfl | hx
    · exact hy
    · exact UInt8.lt_of_le_of_lt (List.rel_of_pairwise_cons hfalling hx) hy

end

/-! ## The files in the order of a ranking -/

variable {files : List FileSummary} {f g : FileSummary} {R : FileSummary → FileSummary → Prop}

/-- A file is more important than another, or as important and earlier. -/
def Outranks (R : FileSummary → FileSummary → Prop) (f g : FileSummary) : Prop :=
  g.importance < f.importance ∨ f.importance = g.importance ∧ R f g

/-- The files in the order of a ranking, all of them. -/
def sorted (files : List FileSummary) : List FileSummary :=
  files.mergeSort fun f g => g.importance ≤ f.importance

lemma rank_eq_take (files : List FileSummary) : rank files = (sorted files).take 10 := rfl

lemma perm_sorted (files : List FileSummary) : (sorted files).Perm files :=
  List.mergeSort_perm files _

/-- An order that the files were given in is kept among those of one importance. -/
theorem pairwise_sorted (h : files.Pairwise R) : (sorted files).Pairwise (Outranks R) :=
  pairwise_mergeSort_falling h

lemma falling_sorted (files : List FileSummary) :
    (sorted files).Pairwise fun f g => g.importance ≤ f.importance := by
  refine (pairwise_sorted (R := fun _ _ => True) ?_).imp fun {f g} h => ?_
  · exact List.pairwise_of_forall fun _ _ => trivial
  · rcases h with h | h
    · exact UInt8.le_of_lt h
    · exact h.1 ▸ UInt8.le_refl _

lemma sorted_of_falling (h : files.Pairwise fun f g => g.importance ≤ f.importance) :
    sorted files = files :=
  List.mergeSort_of_pairwise (h.imp decide_eq_true)

/-- One more file comes in between those that are at least as important and those that are less. -/
lemma sorted_concat {front back : List FileSummary} (hsplit : sorted files = front ++ back)
    (hatLeast : ∀ f ∈ front, g.importance ≤ f.importance)
    (hless : ∀ f ∈ back, f.importance < g.importance) :
    sorted (files ++ [g]) = front ++ g :: back := by
  refine eq_of_filter_eq (falling_sorted (files ++ [g])) ?_ fun m => ?_
  · have hboth := falling_sorted files
    rw [hsplit, List.pairwise_append] at hboth
    refine List.pairwise_append.mpr ⟨hboth.1, List.pairwise_cons.mpr ⟨?_, hboth.2.1⟩, ?_⟩
    · exact fun f hf => UInt8.le_of_lt (hless f hf)
    · intro f hf h hh
      rcases List.mem_cons.mp hh with rfl | hh
      · exact hatLeast f hf
      · exact hboth.2.2 f hf h hh
  · have hfiles : (front ++ back).filter (·.importance = m) = files.filter (·.importance = m) :=
      hsplit ▸ filter_mergeSort m
    have hmore : (sorted (files ++ [g])).filter (·.importance = m) =
        (files ++ [g]).filter (·.importance = m) := filter_mergeSort m
    rw [hmore, List.filter_append, List.filter_append, ← hfiles, List.filter_append]
    by_cases hm : g.importance = m
    · -- none of those after it are as important
      have hnone : back.filter (·.importance = m) = [] := by
        refine List.filter_eq_nil_iff.mpr fun f hf heq => ?_
        have hlt := hless f hf
        rw [of_decide_eq_true heq, hm] at hlt
        exact UInt8.lt_irrefl m hlt
      rw [hnone, List.filter_cons_of_pos (by simp [hm]), List.filter_cons_of_pos (by simp [hm]),
        hnone]
      simp
    · rw [List.filter_cons_of_neg (by simp [hm]), List.filter_cons_of_neg (by simp [hm])]
      simp

/-- Where one more file comes in. -/
lemma exists_sorted_concat (files : List FileSummary) (g : FileSummary) :
    ∃ front back, sorted files = front ++ back ∧ sorted (files ++ [g]) = front ++ g :: back ∧
      (∀ f ∈ front, g.importance ≤ f.importance) ∧ ∀ f ∈ back, f.importance < g.importance := by
  have hsplit : sorted files = (sorted files).takeWhile (g.importance ≤ ·.importance) ++
      (sorted files).dropWhile (g.importance ≤ ·.importance) := List.takeWhile_append_dropWhile.symm
  have hatLeast : ∀ f ∈ (sorted files).takeWhile (g.importance ≤ ·.importance),
      g.importance ≤ f.importance := fun f hf => by simpa using List.mem_takeWhile_imp hf
  have hless : ∀ f ∈ (sorted files).dropWhile (g.importance ≤ ·.importance),
      f.importance < g.importance := fun f hf => lt_of_mem_dropWhile (falling_sorted files) hf
  exact ⟨_, _, hsplit, sorted_concat hsplit hatLeast hless, hatLeast, hless⟩

/-! ## What a ranking keeps -/

lemma length_rank (files : List FileSummary) : (rank files).length = min 10 files.length := by
  rw [rank_eq_take, List.length_take, (perm_sorted files).length_eq]

lemma mem_of_mem_rank (h : f ∈ rank files) : f ∈ files :=
  (perm_sorted files).mem_iff.mp (List.mem_of_mem_take h)

/-- Each file of a ranking outranks those after it. -/
theorem pairwise_rank (h : files.Pairwise R) : (rank files).Pairwise (Outranks R) :=
  (pairwise_sorted h).sublist (List.take_sublist 10 _)

/-- A file that is left out is outranked by all that are kept. -/
theorem outranks_of_notMem_rank (h : files.Pairwise R) (hg : g ∈ files) (hout : g ∉ rank files)
    (hf : f ∈ rank files) : Outranks R f g := by
  have hsplit := pairwise_sorted h
  rw [← List.take_append_drop 10 (sorted files), List.pairwise_append] at hsplit
  have hdropped : g ∈ (sorted files).drop 10 := by
    have hsorted := (perm_sorted files).mem_iff.mpr hg
    rw [← List.take_append_drop 10 (sorted files), List.mem_append] at hsorted
    exact hsorted.resolve_left hout
  exact hsplit.2.2 f hf g hdropped

/-- Names that are given once are kept at most once. -/
lemma nodup_names_rank (h : (files.map (·.name)).Nodup) : ((rank files).map (·.name)).Nodup :=
  (((perm_sorted files).map (·.name)).nodup_iff.mpr h).sublist ((List.take_sublist 10 _).map _)

/-- A ranking is its own ranking. -/
lemma rank_rank (files : List FileSummary) : rank (rank files) = rank files := by
  have hsorted : sorted (rank files) = rank files :=
    sorted_of_falling ((falling_sorted files).sublist (List.take_sublist 10 _))
  rw [rank_eq_take (rank files), hsorted]
  exact List.take_of_length_le (by rw [length_rank]; omega)

/-- One more file changes a ranking that is not full, and one whose last file is less important. -/
lemma rank_concat_ne_iff (files : List FileSummary) (g : FileSummary) :
    rank (files ++ [g]) ≠ rank files ↔ files.length < 10 ∨
      ∃ last, (rank files).getLast? = some last ∧ last.importance < g.importance := by
  obtain ⟨front, back, hsplit, hconcat, hatLeast, hless⟩ := exists_sorted_concat files g
  have hlength := (perm_sorted files).length_eq
  rw [rank_eq_take, rank_eq_take, hconcat, hsplit]
  rw [hsplit] at hlength
  rw [List.length_append] at hlength
  by_cases hfront : 10 ≤ front.length
  · -- the file comes in after the tenth
    rw [List.take_append_of_le_length hfront, List.take_append_of_le_length hfront]
    simp only [ne_eq, not_true_eq_false, false_iff, not_or, not_exists, not_and]
    refine ⟨by omega, fun last hlast hlt => ?_⟩
    have hmem := List.mem_of_mem_take (List.mem_of_getLast? hlast)
    exact UInt8.not_le.mpr hlt (hatLeast last hmem)
  · -- it takes a place that nothing as important had
    refine iff_of_true (fun heq => ?_) ?_
    · have hplace := congrArg (·[front.length]?) heq
      simp only [List.getElem?_take_of_lt (Nat.not_le.mp hfront), List.getElem?_append_right
        (Nat.le_refl front.length), Nat.sub_self, List.getElem?_cons_zero] at hplace
      exact UInt8.lt_irrefl _ (hless g (List.mem_of_getElem? hplace.symm))
    · by_cases hfew : files.length < 10
      · exact .inl hfew
      · rw [List.take_append, List.take_of_length_le (by omega)]
        have hne : back.take (10 - front.length) ≠ [] := by
          rw [Ne, List.take_eq_nil_iff, ← List.length_eq_zero_iff]
          omega
        refine .inr ⟨_, by rw [List.getLast?_append_of_ne_nil _ hne,
          List.getLast?_eq_some_getLast hne], hless _ ?_⟩
        exact List.mem_of_mem_take (List.getLast_mem hne)

/-! ## Positions -/

/-- The file at a position is more important than that at another, or as important and given
earlier. -/
def IsAhead (files : List FileSummary) (i j : Fin files.length) : Prop :=
  files[j].importance < files[i].importance ∨ files[i].importance = files[j].importance ∧ i < j

/-- The positions of the files in the order of a ranking, all of them. -/
def sortedPositions (files : List FileSummary) : List (Fin files.length) :=
  (List.finRange files.length).mergeSort (isAtLeast fun i => files[i].importance)

lemma map_sortedPositions (files : List FileSummary) :
    (sortedPositions files).map (fun i => files[i]) = sorted files := by
  have hfiles : (List.finRange files.length).map (fun i => files[i]) = files :=
    List.map_get_finRange files
  have hmap : (sortedPositions files).map (fun i => files[i]) =
      ((List.finRange files.length).map fun i => files[i]).mergeSort (isAtLeast (·.importance)) :=
    List.map_mergeSort fun _ _ _ _ => rfl
  rw [hmap, hfiles]
  rfl

lemma pairwise_sortedPositions (files : List FileSummary) :
    (sortedPositions files).Pairwise (IsAhead files) :=
  pairwise_mergeSort_falling (List.pairwise_lt_finRange _)

lemma perm_sortedPositions (files : List FileSummary) :
    (sortedPositions files).Perm (List.finRange files.length) := List.mergeSort_perm _ _

/-- A ranking keeps ten positions, or all if there are no more. Each is ahead of those after it, and
all are ahead of those that are left out. A ranking is its own ranking, and one more file at the end
changes it exactly if it has room, or if its last file is less important. -/
theorem rank_keeps_first_ten (files : List FileSummary) :
    (∃ kept : List (Fin files.length), rank files = kept.map (fun i => files[i]) ∧ kept.Nodup ∧
      (rank files).length = min 10 files.length ∧ kept.Pairwise (IsAhead files) ∧
      ∀ i ∈ kept, ∀ j ∉ kept, IsAhead files i j) ∧
    rank (rank files) = rank files ∧
    ∀ g, rank (files ++ [g]) ≠ rank files ↔ files.length < 10 ∨
      ∃ last, (rank files).getLast? = some last ∧ last.importance < g.importance := by
  refine ⟨⟨(sortedPositions files).take 10, ?_, ?_, length_rank files, ?_, ?_⟩, rank_rank files,
    rank_concat_ne_iff files⟩
  · rw [rank_eq_take, ← map_sortedPositions, List.map_take]
  · exact ((perm_sortedPositions files).nodup_iff.mpr (List.nodup_finRange _)).sublist
      (List.take_sublist 10 _)
  · exact (pairwise_sortedPositions files).sublist (List.take_sublist 10 _)
  · intro i hi j hj
    have hdropped : j ∈ (sortedPositions files).drop 10 := by
      have hall := (perm_sortedPositions files).mem_iff.mpr (List.mem_finRange j)
      rw [← List.take_append_drop 10 (sortedPositions files), List.mem_append] at hall
      exact hall.resolve_left hj
    have hahead := pairwise_sortedPositions files
    rw [← List.take_append_drop 10 (sortedPositions files), List.pairwise_append] at hahead
    exact hahead.2.2 i hi j hdropped

end DirectoryNotes.FileSummary
