import DirectoryNotes.Proofs.FileTree.FarDown
import DirectoryNotes.Proofs.Walk

/-!
# Each directory once

With links a directory is reached on many ways, some of them without end. A walk is sound, complete
and free of repetitions all the same, as long as the file system tells where the directories are:

* `descend?_of_mem_walk`: what is listed is where names lead along which a walk goes down;
* `exists_mark_mem_walk`, `pairwise_mark_walk`: each mark that is come by is listed, and once;
* `walk_lists`: what follows where the paths of all directories are short enough;
* `mem_walk_of_tooLong`: a directory whose path is too long is listed on every way.
-/

namespace DirectoryNotes

open FileTree

variable {t : FileTree} {filter : IgnoreFilter} {root d : Path} {l k : Location}
  {names : List String} {v : Visited}

/-! ## Marks of what is listed -/

section
variable (hroot : t.find root = .ok (l, .directory))
include hroot

/-- No two of the directories that a walk lists have the same mark. -/
lemma pairwise_mark_walk : (walk t filter root).Pairwise fun d d' => t.mark d ≠ t.mark d' := by
  rw [walk_eq hroot]
  refine .cons ?_ (List.pairwise_map.mpr (pairwise_firstVisits _ _))
  intro d hd heq
  obtain ⟨v, hv, rfl⟩ := List.mem_map.mp hd
  exact mark_notMem_of_mem_firstVisits hv (by simp [heq])

/-- What a walk comes by has the mark of something that it lists. -/
lemma exists_mark_mem_walk (hv : v ∈ t.visitBelow true (listedBy filter root) [l] 1 root l) :
    ∃ d ∈ walk t filter root, t.mark d = t.mark v.path := by
  rw [walk_eq hroot]
  by_cases hseen : t.mark v.path = t.mark root
  · exact ⟨root, List.mem_cons_self, hseen.symm⟩
  · obtain ⟨w, hw, hmark⟩ := exists_mem_firstVisits hv (mt List.mem_singleton.mp hseen)
    exact ⟨w.path, List.mem_cons_of_mem _ (List.mem_map_of_mem hw), hmark⟩

/-- What is listed is where names lead along which a walk goes down. -/
lemma descend?_of_mem_walk (ht : t.WellFormed) (hd : d ∈ walk t filter root) :
    ∃ names k, d = root.follow names ∧ filter.Passes names ∧
      t.descend? [l] root l names = some k := by
  rw [walk_eq hroot] at hd
  rcases List.mem_cons.mp hd with rfl | hd
  · exact ⟨[], l, (Path.follow_nil _).symm, passes_nil filter, rfl⟩
  · obtain ⟨v, hv, rfl⟩ := List.mem_map.mp hd
    obtain ⟨names, -, hpath, hpasses, hdescend⟩ :=
      descend?_of_mem_visits ht hroot ((firstVisits_sublist t _ _).subset hv)
    exact ⟨names, v.location, hpath, hpasses, hdescend⟩

end

/-! ## Short paths -/

/-- Names that lead from the root to a directory, along which a walk goes down. -/
structure IsListed (t : FileTree) (filter : IgnoreFilter) (root : Path) (names : List String)
    (k : Location) : Prop where
  plain : ∀ n ∈ names, IsPlainName n
  resolves : t.ResolvesTo (root.follow names) k .directory
  passes : filter.Passes names

section
variable (ht : t.WellFormed) (hroot : t.find root = .ok (l, .directory)) (hshort : HasShortPaths t)
include ht hroot hshort

/-- Names that lead a descent to a directory resolve to it. -/
lemma resolvesTo_of_descend? (h : t.descend? [l] root l names = some k) :
    t.ResolvesTo (root.follow names) k .directory := by
  have hleads := leadsInto_of_descend? ht (leadsInto_of_find hroot) h
  have hadmitted := isAdmitted_of_find hroot
  have hnames := isEntryName_of_descend? ht h
  constructor
  case ne_empty =>
    exact text_follow_ne_empty hadmitted.ne_empty fun n hn => (hnames n hn).toIsPlainName
  case no_null => exact null_notMem_follow hadmitted.no_null hnames
  case walk => exact hleads.way
  case entry => exact hleads.directory
  case size_le => exact hshort k hleads.directory

/-- Soundness: what a walk lists is a directory that names lead to along which it goes down. -/
lemma isListed_of_mem_walk (hd : d ∈ walk t filter root) :
    ∃ names k, d = root.follow names ∧ IsListed t filter root names k := by
  obtain ⟨names, k, hpath, hpasses, hdescend⟩ := descend?_of_mem_walk hroot ht hd
  have hplain := fun n hn => (isEntryName_of_descend? ht hdescend n hn).toIsPlainName
  exact ⟨names, k, hpath, hplain, resolvesTo_of_descend? ht hroot hshort hdescend, hpasses⟩

/-- Completeness: names that go along different places lead to a place that is listed. -/
lemma exists_mem_walk (h : IsListed t filter root names k)
    (hadmitted : (root.follow names).IsAdmitted)
    (hdistinct : ∀ front back, front <+: names → back <+: names →
      t.realPath (root.follow front) = t.realPath (root.follow back) → front = back) :
    ∃ d ∈ walk t filter root, t.realPath d = t.realPath (root.follow names) := by
  have hfind : t.find (root.follow names) = .ok (k, .directory) :=
    LeadsInto.find ⟨h.resolves.walk, h.resolves.entry⟩ hadmitted
  have hsame : ∀ front back, front <+: names → back <+: names → ∀ m e e',
      t.find (root.follow front) = .ok (m, e) → t.find (root.follow back) = .ok (m, e') →
        front = back := by
    intro front back hfront hback m e e' hm hm'
    refine hdistinct front back hfront hback ?_
    rw [realPath_of_find hm, realPath_of_find hm']
  have hfresh : ∀ front, front <+: names → front ≠ [] → ∀ m e,
      t.find (root.follow front) = .ok (m, e) → m ∉ [l] := by
    intro front hfront hne m e hm hmem
    rw [List.mem_singleton.mp hmem] at hm
    exact hne (hsame front [] hfront List.nil_prefix l e .directory hm hroot)
  by_cases hne : names = []
  · subst hne
    refine ⟨root, ?_, by rw [Path.follow_nil]⟩
    rw [walk_eq hroot]
    exact List.mem_cons_self
  · have hdescend := descend?_of_find hroot h.plain hfind hfresh hsame
    obtain ⟨v, hv, hpath, -⟩ := exists_mem_visits ht hroot h.passes hne hdescend
    -- the place may have been visited on another way before
    obtain ⟨d, hd, hmark⟩ := exists_mark_mem_walk hroot hv
    obtain ⟨names', k', rfl, hlisted⟩ := isListed_of_mem_walk ht hroot hshort hd
    rw [hpath] at hmark
    exact ⟨root.follow names', hd, (mark_eq_iff ht hlisted.resolves h.resolves).mp hmark⟩

/-- No two of the directories that a walk lists come down to the same path. -/
lemma pairwise_walk : (walk t filter root).Pairwise fun d d' => t.realPath d ≠ t.realPath d' := by
  refine (pairwise_mark_walk hroot).imp_of_mem ?_
  intro d d' hd hd' hne
  obtain ⟨names, k, rfl, h⟩ := isListed_of_mem_walk ht hroot hshort hd
  obtain ⟨names', k', rfl, h'⟩ := isListed_of_mem_walk ht hroot hshort hd'
  exact mt (mark_eq_iff ht h.resolves h'.resolves).mpr hne

end

/-- Without links a walk lists exactly the directories that names lead to along which it goes down
and which it can read, in the order of the descent. -/
lemma walk_eq_isListed (ht : t.IsProject root l) (hshort : HasShortPaths t) :
    ∃ below : List Location, walk t filter root = below.map root.follow ∧
      (∀ names, names ∈ below ↔
        (∃ k, IsListed t filter root names k) ∧ AdmitsAbove root names) ∧
      below.Pairwise Precedes := by
  obtain ⟨below, hwalk, hbelow, hordered⟩ := walk_eq_map_follow ht
  refine ⟨below, hwalk, ?_, hordered⟩
  intro names
  rw [hbelow]
  constructor
  · rintro ⟨hentry, habove, hpasses⟩
    have hdescend : t.descend? [l] root l names = some (l ++ names) :=
      descend?_of_directory ht.wellFormed hentry habove
    have hresolves := resolvesTo_of_descend? ht.wellFormed ht.root hshort hdescend
    have hplain := fun n hn =>
      (isEntryName_of_descend? ht.wellFormed hdescend n hn).toIsPlainName
    exact ⟨⟨l ++ names, hplain, hresolves, hpasses⟩, habove⟩
  · rintro ⟨⟨k, h⟩, habove⟩
    obtain rfl := ht.eq_of_leadsInto h.plain ⟨h.resolves.walk, h.resolves.entry⟩
    exact ⟨h.resolves.entry, habove, h.passes⟩

/-- A directory with a link back to the one it is in, and a link beside it that leads to it too. -/
def circle : FileTree where
  entries := [(["a"], .directory), (["a", "up"], .link ".."), (["b"], .link "a")]

lemma wellFormed_circle : circle.WellFormed := by decide

/-- The link beside the directory leads to it, whatever comes after. -/
lemma walk_circle_b (links : Nat) (rest : List String) :
    circle.walk (links + 1) [] ("b" :: rest) = circle.walk links ["a"] rest := by
  have hsegments : segments "a" = ["a"] := by decide
  have hstart : startOf "a" [] = [] := rfl
  have hb : circle.entryAt? ([] ++ ["b"]) = some (.link "a") := rfl
  have ha : ∀ target, circle.entryAt? ([] ++ ["a"]) ≠ some (.link target) := nofun
  rw [walk_of_link rfl (by decide) (by decide) (by decide) hb, hsegments, hstart,
    List.singleton_append, walk_of_entry rfl (by decide) (by decide) (by decide) ha,
    List.nil_append]

lemma find_circle_b : circle.find ⟨"/b"⟩ = .ok (["a"], .directory) := by
  have hadmitted : (Path.mk "/b").IsAdmitted := by decide
  have hsegments : segments "/b" = ["b"] := by decide
  have hstart : startOf "/b" circle.workingDirectory = [] := rfl
  refine find_eq_ok_iff.mpr ⟨?_, rfl⟩
  rw [locate_of_admitted _ hadmitted, hsegments, hstart, linkLimit, walk_circle_b, walk_nil]

/-- A directory whose path is too long for the file system to tell is listed on every way on which a
walk comes by it. -/
theorem mem_walk_of_tooLong (ht : t.WellFormed) (hroot : t.find root = .ok (l, .directory))
    (hv : v ∈ t.visitBelow true (listedBy filter root) [l] 1 root l)
    (hlong : pathLimit < (pathOf v.location).text.utf8ByteSize) : v.path ∈ walk t filter root := by
  obtain ⟨d, hd, hmark⟩ := exists_mark_mem_walk hroot hv
  obtain ⟨more, -, hpath, -, hmore⟩ := descend?_of_mem_visits ht hroot hv
  obtain ⟨names, k, rfl, -, hnames⟩ := descend?_of_mem_walk hroot ht hd
  have hleads := leadsInto_of_descend? ht (leadsInto_of_find hroot) hnames
  have hleads' := leadsInto_of_mem_visits ht hroot hv
  rw [mark_of_tooLong hleads' hlong] at hmark
  -- what is listed is no other directory, so its mark is that of its path too
  have hown : t.mark (root.follow names) = (root.follow names).parts := by
    rcases mark_cases hleads with hplace | hown
    · obtain rfl := eq_of_parts ht hleads.directory hleads' (hplace.symm.trans hmark)
      exact mark_of_tooLong hleads hlong
    · exact hown
  rw [hown, hpath] at hmark
  have hsame := Path.follow_inj
    (fun n hn => (isEntryName_of_descend? ht hnames n hn).toIsPlainName)
    (fun n hn => (isEntryName_of_descend? ht hmore n hn).toIsPlainName) hmark
  rw [hpath, ← hsame]
  exact hd

/-- A walk comes by the last directory far down over the link that leads there. -/
lemma descend?_deepTree_x : deepTree.descend? [[]] ⟨"/"⟩ [] ["x"] = some (farDown 17) := by
  have hjoin : (⟨"/"⟩ : Path).join ⟨"x"⟩ = linkedPath 0 := by decide
  have hfind : deepTree.find ((⟨"/"⟩ : Path).join ⟨"x"⟩) = .ok (farDown 17, .directory) :=
    hjoin ▸ find_linkedPath (by decide)
  rw [descend?, entered?_of_find (find_slash _) (by decide) hfind (by simp [farDown])]
  rfl

/-- So it does over the link that leads half the way, and the directories below. -/
lemma descend?_deepTree_s :
    deepTree.descend? [[]] ⟨"/"⟩ [] ("s" :: farDown 8) = some (farDown 17) := by
  have hjoin : (⟨"/"⟩ : Path).join ⟨"s"⟩ = pathOf ["s"] := by decide
  have hfind : deepTree.find ((⟨"/"⟩ : Path).join ⟨"s"⟩) = .ok (farDown 9, .directory) :=
    hjoin ▸ find_s
  have hfar : farDown 9 ++ farDown 8 = farDown 17 := List.replicate_append_replicate
  rw [descend?, entered?_of_find (find_slash _) (by decide) hfind (by simp [farDown]),
    Option.bind_some, ← hfar]
  refine descend?_of_directory wellFormed_deepTree ?_ ?_
  · rw [hfar]
    exact entryAt?_farDown (by decide)
  · have hplain := fun name hname => (isEntryName_farDown 8 name hname).toIsPlainName
    have hadmitted := isAdmitted_s
    rw [Path.follow_cons] at hadmitted
    exact admitsAbove_of_admitted (by decide) hplain hadmitted

/-- What a walk from the top comes by on a way to the last directory far down, it lists. -/
lemma mem_walk_farDown (hn : ∀ n ∈ names, FileName.isHidden n = false) (hne : names ≠ [])
    (hdescend : deepTree.descend? [[]] ⟨"/"⟩ [] names = some (farDown 17)) :
    Path.follow ⟨"/"⟩ names ∈ walk deepTree (.everything ⟨"/"⟩) ⟨"/"⟩ := by
  have hroot := find_slash deepTree
  obtain ⟨v, hv, hpath, hlocation⟩ :=
    exists_mem_visits wellFormed_deepTree hroot (passes_everything _ hn) hne hdescend
  rw [← hpath]
  exact mem_walk_of_tooLong wellFormed_deepTree hroot hv (hlocation ▸ size_farDown)

end DirectoryNotes
