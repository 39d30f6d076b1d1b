import DirectoryNotes.Proofs.FileTree.Descent

/-!
# Descending without following links

A descent that does not follow links goes down the directories of the tree itself:

* `visitEntry`: what it visits at one name. `visitBelow_unfollowed_eq` and `mem_unfollowed_iff` say
  that it is made of that;
* `location_of_mem_unfollowed`: what is visited lies below, as its path says;
* `pairwise_unfollowed`: it comes in the order of `Precedes`, so nothing is visited twice.
-/

namespace DirectoryNotes.FileTree

open Text

variable {t : FileTree} {lists : Visited → Bool} {trail : List Location} {depth : Nat} {path : Path}
  {here : Location} {name : String} {v : Visited}

/-! ## One name -/

/-- An entry as a descent comes by it. -/
def seenAt (path : Path) (depth : Nat) (here : Location) (name : String) (e : Entry) : Visited :=
  ⟨path.join ⟨name⟩, depth, name, e, here ++ [name]⟩

/-- What a descent that does not follow links visits at a name and below it. -/
def visitEntry (t : FileTree) (lists : Visited → Bool) (trail : List Location) (depth : Nat)
    (path : Path) (here : Location) (name : String) : List Visited :=
  match t.entryAt? (here ++ [name]) with
  | none => []
  | some e =>
    if lists (seenAt path depth here name e) then
      seenAt path depth here name e ::
        if e.isDirectory then
          t.visitBelow false lists ((here ++ [name]) :: trail) (depth + 1) (path.join ⟨name⟩)
            (here ++ [name])
        else []
    else []

theorem visitBelow_unfollowed_eq : t.visitBelow false lists trail depth path here =
    (t.namesOn path here).flatMap (t.visitEntry lists trail depth path here) := by
  rw [visitBelow]
  refine List.flatMap_congr fun name _ => ?_
  unfold visitEntry
  dsimp only
  split
  · next hentry => rw [hentry]
  · next hentry => rw [hentry]; rfl
  · next hentry => rw [hentry]; rfl
  · next hentry => rw [hentry]; rfl

/-- What is visited below a directory is an entry of it, or lies below one. -/
theorem mem_unfollowed_iff : v ∈ t.visitBelow false lists trail depth path here ↔
    path.IsAdmitted ∧ ∃ name e, t.entryAt? (here ++ [name]) = some e ∧
      lists (seenAt path depth here name e) = true ∧
      (v = seenAt path depth here name e ∨ e = .directory ∧
        v ∈ t.visitBelow false lists ((here ++ [name]) :: trail) (depth + 1) (path.join ⟨name⟩)
          (here ++ [name])) := by
  have hdirectory : ∀ e : Entry, e.isDirectory = true ↔ e = .directory := by
    intro e
    cases e <;> simp [Entry.isDirectory]
  have hname : ∀ name, v ∈ t.visitEntry lists trail depth path here name ↔
      ∃ e, t.entryAt? (here ++ [name]) = some e ∧ lists (seenAt path depth here name e) = true ∧
        (v = seenAt path depth here name e ∨ e = .directory ∧
          v ∈ t.visitBelow false lists ((here ++ [name]) :: trail) (depth + 1) (path.join ⟨name⟩)
            (here ++ [name])) := by
    intro name
    unfold visitEntry
    cases t.entryAt? (here ++ [name]) with
    | none => simp
    | some e =>
      dsimp only
      by_cases hlisted : lists (seenAt path depth here name e) = true
      · rw [if_pos hlisted, List.mem_cons, List.mem_ite_nil_right, hdirectory]
        simp [hlisted]
      · simp [hlisted]
  rw [visitBelow_unfollowed_eq, List.mem_flatMap]
  constructor
  · rintro ⟨name, hlisted, hv⟩
    exact ⟨(mem_namesOn_iff.mp hlisted).1, name, (hname name).mp hv⟩
  · rintro ⟨hadmitted, name, e, hentry, hv⟩
    exact ⟨name, mem_namesOn_iff.mpr ⟨hadmitted, e, hentry⟩, (hname name).mpr ⟨e, hentry, hv⟩⟩

/-! ## All the way down -/

/-- What is visited lies below, as its path says. -/
lemma location_of_mem_unfollowed (hv : v ∈ t.visitBelow false lists trail depth path here) :
    depth ≤ v.depth ∧ t.entryAt? v.location = some v.entry ∧
      ∃ more, more ≠ [] ∧ v.location = here ++ more ∧ v.path = path.follow more := by
  induction trail, here using t.descent_induction generalizing depth path with
  | step trail here ihdirectory _ =>
    obtain ⟨-, name, e, hentry, -, hv⟩ := mem_unfollowed_iff.mp hv
    rcases hv with rfl | ⟨rfl, hv⟩
    · exact ⟨Nat.le_refl _, hentry, [name], by simp, rfl, rfl⟩
    · obtain ⟨hdepth, hplace, more, -, hlocation, hpath⟩ := ihdirectory name hentry hv
      refine ⟨Nat.le_of_succ_le hdepth, hplace, name :: more, by simp, ?_, ?_⟩
      · rw [hlocation, List.append_assoc, List.singleton_append]
      · rw [hpath, Path.follow_cons]

lemma location_of_mem_visitEntry (hv : v ∈ t.visitEntry lists trail depth path here name) :
    ∃ more, v.location = here ++ name :: more := by
  unfold visitEntry at hv
  split at hv
  · cases hv
  · split at hv
    · rcases List.mem_cons.mp hv with rfl | hv
      · exact ⟨[], rfl⟩
      · obtain ⟨-, hv⟩ := List.mem_ite_nil_right.mp hv
        obtain ⟨-, -, more, -, hlocation, -⟩ := location_of_mem_unfollowed hv
        exact ⟨more, by rw [hlocation, List.append_assoc, List.singleton_append]⟩
    · cases hv

/-- Directories are visited before what is below them, and names in the order of their bytes. -/
theorem pairwise_unfollowed (ht : t.WellFormed) :
    (t.visitBelow false lists trail depth path here).Pairwise fun v w =>
      Precedes v.location w.location := by
  induction trail, here using t.descent_induction generalizing depth path with
  | step trail here ihdirectory _ =>
    rw [visitBelow_unfollowed_eq, List.pairwise_flatMap]
    constructor
    · intro name _
      unfold visitEntry
      split
      · exact .nil
      · next e hentry =>
        split
        · split
          · next hdirectory =>
            have hdir : t.entryAt? (here ++ [name]) = some .directory :=
              any_isDirectory_iff.mp (by rw [hentry]; exact hdirectory)
            refine .cons ?_ (ihdirectory name hdir)
            intro w hw
            obtain ⟨-, -, more, hmore, hlocation, -⟩ := location_of_mem_unfollowed hw
            rw [hlocation]
            exact precedes_append _ hmore
          · exact List.pairwise_singleton _ _
        · exact .nil
    · refine (pairwise_namesOn ht path here).imp ?_
      intro m n hmn v hv w hw
      obtain ⟨more, hm⟩ := location_of_mem_visitEntry hv
      obtain ⟨more', hn⟩ := location_of_mem_visitEntry hw
      rw [hm, hn]
      exact precedes_append_left_iff.mpr (.rel hmn)

end DirectoryNotes.FileTree
