import DirectoryNotes.Plan
import DirectoryNotes.Proofs.FileTree.Canonical
import DirectoryNotes.Proofs.Walk

/-!
# Where changes lead

A changed file leads to the directory that it lies in, in whichever way its path is written:

* `PathSet.exists_mem_ofList`, `PathSet.pairwise_ofList`: a set of paths keeps one path for each place;
* `relativeTo?_pathOf`, `changedFromRoot?_spelled`: what is left of a changed path is its names below
  the root;
* `affectedDirectory?_iff`, `mem_affectedDirectories_iff`: the directories that changes lead to.
-/

namespace DirectoryNotes

open FileTree

/-! ## Sets of paths -/

lemma PathPart.eq_of_compare {a b : PathPart} (h : a.compare b = .eq) : a = b := by
  obtain ⟨hrank, htext⟩ := Ordering.then_eq_eq.mp h
  have hrank := Std.LawfulEqOrd.eq_of_compare hrank
  have htext := Std.LawfulEqOrd.eq_of_compare htext
  cases a <;> cases b <;> simp_all [PathPart.rank, PathPart.nameText]

/-- Paths that the order does not tell apart have the same parts. -/
lemma Path.parts_eq_of_compare {p q : Path} (h : p.compare q = .eq) : p.parts = q.parts := by
  rw [Path.compare] at h
  generalize p.parts = xs at h ⊢
  generalize q.parts = ys at h ⊢
  induction xs generalizing ys with
  | nil =>
    cases ys with
    | nil => rfl
    | cons y ys => cases h
  | cons x xs ih =>
    cases ys with
    | nil => cases h
    | cons y ys =>
      rw [List.compareLex_cons_cons, Ordering.then_eq_eq] at h
      rw [PathPart.eq_of_compare h.1, ih ys h.2]

/-- Parts are ordered by their ranks first, and by their texts then. -/
instance : Std.TransCmp PathPart.compare :=
  inferInstanceAs (Std.TransCmp (compareLex (compareOn PathPart.rank) (compareOn PathPart.nameText)))

instance : Std.TransCmp Path.compare where
  eq_swap {p q} :=
    @Std.OrientedCmp.eq_swap _ (List.compareLex PathPart.compare) _ p.parts q.parts
  isLE_trans {p q r} :=
    @Std.TransCmp.isLE_trans _ (List.compareLex PathPart.compare) _ p.parts q.parts r.parts

namespace PathSet

variable {p q : Path} {set : PathSet} {paths : List Path}

lemma mem_of_mem_insert (h : q ∈ insert p set) : q = p ∨ q ∈ set := by
  induction set with
  | nil => exact .inl (List.mem_singleton.mp h)
  | cons r rest ih =>
    rw [insert] at h
    split at h
    · exact List.mem_cons.mp h
    · exact .inr h
    · rcases List.mem_cons.mp h with rfl | h
      · exact .inr List.mem_cons_self
      · exact (ih h).imp_right (List.mem_cons_of_mem _)

lemma mem_insert_of_mem (h : q ∈ set) : q ∈ insert p set := by
  induction set with
  | nil => cases h
  | cons r rest ih =>
    rw [insert]
    split
    · exact List.mem_cons_of_mem _ h
    · exact h
    · rcases List.mem_cons.mp h with rfl | h
      · exact List.mem_cons_self
      · exact List.mem_cons_of_mem _ (ih h)

/-- A path that is added is there afterwards, or one of the same parts was there already. -/
lemma exists_mem_insert (p : Path) (set : PathSet) : ∃ q ∈ insert p set, q.parts = p.parts := by
  induction set with
  | nil => exact ⟨p, List.mem_singleton.mpr rfl, rfl⟩
  | cons r rest ih =>
    rw [insert]
    split
    · exact ⟨p, List.mem_cons_self, rfl⟩
    · next heq => exact ⟨r, List.mem_cons_self, (Path.parts_eq_of_compare heq).symm⟩
    · obtain ⟨q, hq, hparts⟩ := ih
      exact ⟨q, List.mem_cons_of_mem _ hq, hparts⟩

lemma mem_of_mem_ofList (h : q ∈ ofList paths) : q ∈ paths := by
  have hfold : ∀ set : PathSet, q ∈ paths.foldl (fun set p => insert p set) set →
      q ∈ set ∨ q ∈ paths := by
    clear h
    induction paths with
    | nil => exact fun set h => .inl h
    | cons p rest ih =>
      intro set h
      rcases ih _ h with h | h
      · rcases mem_of_mem_insert h with rfl | h
        · exact .inr List.mem_cons_self
        · exact .inl h
      · exact .inr (List.mem_cons_of_mem _ h)
  exact (hfold [] h).resolve_left (by simp)

/-- The set of paths has a path of the same parts for each of them. -/
lemma exists_mem_ofList (h : p ∈ paths) : ∃ q ∈ ofList paths, q.parts = p.parts := by
  -- what is in the set stays while more paths are added
  have hkeep : ∀ (rest : List Path) (set : PathSet), (∃ q ∈ set, q.parts = p.parts) →
      ∃ q ∈ rest.foldl (fun set p => insert p set) set, q.parts = p.parts := by
    intro rest
    induction rest with
    | nil => exact fun set h => h
    | cons r rest ih =>
      rintro set ⟨q, hq, hparts⟩
      exact ih _ ⟨q, mem_insert_of_mem hq, hparts⟩
  obtain ⟨before, after, rfl⟩ := List.append_of_mem h
  unfold ofList
  rw [List.foldl_append, List.foldl_cons]
  exact hkeep after _ (exists_mem_insert p _)

lemma pairwise_insert (h : set.Pairwise fun p q => p.compare q = .lt) :
    (insert p set).Pairwise fun p q => p.compare q = .lt := by
  induction set with
  | nil => exact List.pairwise_singleton _ p
  | cons r rest ih =>
    obtain ⟨hr, hrest⟩ := List.pairwise_cons.mp h
    rw [insert]
    split
    · next hlt =>
      refine .cons ?_ h
      intro q hq
      rcases List.mem_cons.mp hq with rfl | hq
      · exact hlt
      · exact Std.TransCmp.lt_trans hlt (hr q hq)
    · exact h
    · next hgt =>
      refine .cons ?_ (ih hrest)
      intro q hq
      rcases mem_of_mem_insert hq with rfl | hq
      · exact Std.OrientedCmp.lt_of_gt hgt
      · exact hr q hq

/-- The paths of a set are in increasing order, so no two of them have the same parts. -/
lemma pairwise_ofList (paths : List Path) :
    (ofList paths).Pairwise fun p q => p.parts ≠ q.parts := by
  have hfold : ∀ set : PathSet, (set.Pairwise fun p q => p.compare q = .lt) →
      (paths.foldl (fun set p => insert p set) set).Pairwise fun p q => p.compare q = .lt := by
    induction paths with
    | nil => exact fun set h => h
    | cons p rest ih => exact fun set h => ih _ (pairwise_insert h)
  refine (hfold [] .nil).imp ?_
  intro p q hlt heq
  have hself : p.compare p = .lt := by
    rw [Path.compare, heq] at hlt
    rwa [Path.compare, heq]
  exact absurd (hself.symm.trans (Std.ReflCmp.compare_self : p.compare p = .eq)) (by simp)

end PathSet

/-! ## Changed files -/

variable {t : FileTree} {root path d : Path} {l w : Location} {e : Entry} {filter : IgnoreFilter}

/-- The ways in which what lies at names below the root is written: the root continued by the names,
or, where the file system tells the path of the root without links, this one continued by the names. -/
def IsSpelling (root : Path) (l w : Location) (path : Path) : Prop :=
  path = root.follow w ∨ (pathOf l).text.utf8ByteSize ≤ pathLimit ∧ path = pathOf (l ++ w)

/-- Paths of the files at names below the root, each written in one of the ways. -/
structure Spells (root : Path) (l : Location) (W : List Location) (paths : List Path) : Prop where
  sound : ∀ path ∈ paths, ∃ w ∈ W, IsSpelling root l w path
  complete : ∀ w ∈ W, ∃ path ∈ paths, IsSpelling root l w path

lemma spells_singleton (h : IsSpelling root l w path) : Spells root l [w] [path] where
  sound := by simpa using h
  complete := by simpa using h

/-- A path without links, taken from the root, leaves the names or nothing at all. -/
lemma relativeTo?_pathOf (ht : t.IsProject root l) (hw : w ≠ []) (he : t.entryAt? (l ++ w) = some e)
    (hlink : ∀ target, e ≠ .link target) {rest : Path}
    (h : (pathOf (l ++ w)).relativeTo? root = some rest) : rest = .ofNames w := by
  have hn : ∀ n ∈ l ++ w, IsPlainName n := fun n hmem =>
    (ht.wellFormed.isEntryName he n hmem).toIsPlainName
  obtain ⟨front, back, hsplit, hparts, rfl⟩ := Path.of_relativeTo?_pathOf
    (text_ne_empty_of_find ht.root) (by simp [hw]) hn h
  -- above an entry there are directories, so no link is on the way that the root takes
  have hway : ∀ m, m <+: front → ∀ target, t.entryAt? m ≠ some (.link target) := by
    rintro m ⟨more, rfl⟩ target
    rw [hsplit, List.append_assoc] at he
    by_cases hmore : more ++ back = []
    · rw [hmore, List.append_nil] at he
      rw [he]
      exact fun heq => hlink target (Option.some.inj heq)
    · rw [ht.wellFormed.above hmore he]
      simp
  obtain rfl := location_of_parts (leadsInto_of_find ht.root) hparts hway
  rw [List.append_cancel_left hsplit]

/-- Of a changed path the names below the root are left, whichever way it is written. -/
lemma changedFromRoot?_spelled (ht : t.IsProject root l) (hw : w ≠ [])
    (he : t.entryAt? (l ++ w) = some e) (hlink : ∀ target, e ≠ .link target)
    (hpath : IsSpelling root l w path) : changedFromRoot? t root path = some (.ofNames w) := by
  have hn : ∀ n ∈ l ++ w, IsPlainName n := fun n hmem =>
    (ht.wellFormed.isEntryName he n hmem).toIsPlainName
  have hn' : ∀ n ∈ w, IsPlainName n := fun n hmem => hn n (List.mem_append_right _ hmem)
  rcases hpath with rfl | ⟨hsize, rfl⟩
  · unfold changedFromRoot?
    rw [Path.relativeTo?_follow (text_ne_empty_of_find ht.root) hn']
  · unfold changedFromRoot?
    cases hrest : (pathOf (l ++ w)).relativeTo? root with
    | some rest => rw [relativeTo?_pathOf ht hw he hlink hrest]
    | none =>
      have htext : (pathOf l).text ≠ "" := by simp [pathOf]
      rw [(resolvesTo_of_find ht.root hsize).realPath]
      dsimp only
      rw [pathOf_append hn, Path.relativeTo?_follow htext hn']

lemma hasHiddenPart_ofNames (hn : ∀ n ∈ w, IsPlainName n) :
    hasHiddenPart (.ofNames w) = w.any FileName.isHidden := by
  unfold hasHiddenPart
  rw [Path.parts_ofNames hn, List.any_map]
  rfl

/-- Where a changed file leads: to the directory that it lies in, if neither is hidden or left
out. -/
theorem affectedDirectory?_iff (ht : t.IsProject root l) (hw : w ≠ [])
    (he : t.entryAt? (l ++ w) = some e) (hlink : ∀ target, e ≠ .link target)
    (hpath : IsSpelling root l w path) :
    affectedDirectory? t root filter path = some d ↔
      d = root.follow w.dropLast ∧ (∀ n ∈ w, FileName.isHidden n = false) ∧
        filter.includes (.ofNames w) false = true ∧
        filter.includes (.ofNames w.dropLast) true = true ∧ t.isDirectory d = true := by
  have hn : ∀ n ∈ w, IsPlainName n := fun n hmem =>
    (ht.wellFormed.isEntryName he n (List.mem_append_right _ hmem)).toIsPlainName
  have hfront : ∀ n ∈ w.dropLast, IsPlainName n := fun n hmem =>
    hn n ((List.dropLast_sublist w).subset hmem)
  have hdirectory := Path.join_ofNames_ite root hfront
  unfold affectedDirectory?
  rw [changedFromRoot?_spelled ht hw he hlink hpath]
  simp only [bind, Option.bind_some, Path.parent?_ofNames hw hn, Option.getD_some, hdirectory,
    hasHiddenPart_ofNames hn]
  rw [Option.ite_none_right_eq_some, Option.some.injEq]
  simp only [Bool.and_eq_true, Bool.not_eq_true', List.any_eq_false, Bool.not_eq_true]
  constructor
  · rintro ⟨⟨⟨⟨hvisible, hfile⟩, habove⟩, hdir⟩, rfl⟩
    exact ⟨rfl, hvisible, hfile, habove, hdir⟩
  · rintro ⟨rfl, hvisible, hfile, habove, hdir⟩
    exact ⟨⟨⟨⟨hvisible, hfile⟩, habove⟩, hdir⟩, rfl⟩

/-- The directories that changed files lead to. -/
theorem mem_affectedDirectories_iff {W : List Location} {paths : List Path}
    (ht : t.IsProject root l) (hW : ∀ w ∈ W, w ≠ [])
    (he : ∀ w ∈ W, ∃ bytes seconds, t.entryAt? (l ++ w) = some (.file bytes seconds))
    (hpaths : Spells root l W paths) :
    d ∈ affectedDirectories t root filter paths ↔ ∃ w ∈ W, d = root.follow w.dropLast ∧
      (∀ n ∈ w, FileName.isHidden n = false) ∧ filter.includes (.ofNames w) false = true ∧
      filter.includes (.ofNames w.dropLast) true = true ∧ t.isDirectory d = true := by
  have hone : ∀ w ∈ W, ∀ path d, IsSpelling root l w path →
      (affectedDirectory? t root filter path = some d ↔ d = root.follow w.dropLast ∧
        (∀ n ∈ w, FileName.isHidden n = false) ∧ filter.includes (.ofNames w) false = true ∧
        filter.includes (.ofNames w.dropLast) true = true ∧ t.isDirectory d = true) := by
    intro w hw path d hpath
    obtain ⟨bytes, seconds, hentry⟩ := he w hw
    exact affectedDirectory?_iff ht (hW w hw) hentry (by simp) hpath
  have hplain : ∀ w ∈ W, ∀ n ∈ w.dropLast, IsPlainName n := by
    intro w hw n hmem
    obtain ⟨bytes, seconds, hentry⟩ := he w hw
    exact (ht.wellFormed.isEntryName hentry n
      (List.mem_append_right _ ((List.dropLast_sublist w).subset hmem))).toIsPlainName
  constructor
  · intro hd
    obtain ⟨path, hpath, hsome⟩ := List.mem_filterMap.mp (PathSet.mem_of_mem_ofList hd)
    obtain ⟨w, hw, hspelling⟩ := hpaths.sound path hpath
    exact ⟨w, hw, (hone w hw path d hspelling).mp hsome⟩
  · rintro ⟨w, hw, hcond⟩
    obtain ⟨path, hpath, hspelling⟩ := hpaths.complete w hw
    obtain ⟨q, hq, hparts⟩ := PathSet.exists_mem_ofList
      (List.mem_filterMap.mpr ⟨path, hpath, (hone w hw path d hspelling).mpr hcond⟩)
    -- the set may have kept another path of the same parts, but there is only one of this form
    obtain ⟨path', hpath', hsome⟩ := List.mem_filterMap.mp (PathSet.mem_of_mem_ofList hq)
    obtain ⟨w', hw', hspelling'⟩ := hpaths.sound path' hpath'
    obtain ⟨rfl, -⟩ := (hone w' hw' path' q hspelling').mp hsome
    rw [hcond.1] at hparts
    rw [hcond.1, ← Path.follow_inj (hplain w' hw') (hplain w hw) hparts]
    exact hq

end DirectoryNotes
