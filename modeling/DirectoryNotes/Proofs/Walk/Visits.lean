import DirectoryNotes.Proofs.FileTree.Descent
import DirectoryNotes.Walk

/-!
# What a walk comes by

A walk descends from the root by names that are not hidden and that the filter includes, and keeps
the first visit of each mark:

* `exists_mem_firstVisits`, `pairwise_firstVisits`: each mark is kept, and once;
* `IgnoreFilter.Passes`: the names along which a walk goes down;
* `descend?_of_mem_visitBelow`, `exists_mem_visitBelow`: what is visited is where such names lead;
* `leadsInto_of_mem_visits`: the path of a visit leads to its place.
-/

namespace DirectoryNotes

open FileTree

variable {t : FileTree} {filter : IgnoreFilter} {root : Path} {here l k : Location}
  {trail : List Location} {names more : List String} {name : String} {depth : Nat} {v : Visited}

/-! ## First visits -/

section
variable {visits : List Visited} {seen : List (List PathPart)}

lemma firstVisits_of_mem (h : t.mark v.path ∈ seen) :
    firstVisits t seen (v :: visits) = firstVisits t seen visits := by
  rw [firstVisits, if_pos (List.contains_iff_mem.mpr h)]

lemma firstVisits_of_notMem (h : t.mark v.path ∉ seen) :
    firstVisits t seen (v :: visits) = v :: firstVisits t (t.mark v.path :: seen) visits := by
  rw [firstVisits, if_neg (mt List.contains_iff_mem.mp h)]

lemma firstVisits_sublist (t : FileTree) (seen : List (List PathPart)) (visits : List Visited) :
    (firstVisits t seen visits).Sublist visits := by
  induction visits generalizing seen with
  | nil => exact List.Sublist.refl _
  | cons v rest ih =>
    by_cases hv : t.mark v.path ∈ seen
    · rw [firstVisits_of_mem hv]
      exact (ih seen).cons v
    · rw [firstVisits_of_notMem hv]
      exact (ih _).cons_cons v

lemma mark_notMem_of_mem_firstVisits (h : v ∈ firstVisits t seen visits) : t.mark v.path ∉ seen := by
  induction visits generalizing seen with
  | nil => cases h
  | cons w rest ih =>
    by_cases hw : t.mark w.path ∈ seen
    · rw [firstVisits_of_mem hw] at h
      exact ih h
    · rw [firstVisits_of_notMem hw] at h
      rcases List.mem_cons.mp h with rfl | h
      · exact hw
      · exact fun hseen => ih h (List.mem_cons_of_mem _ hseen)

/-- No mark is kept twice. -/
lemma pairwise_firstVisits (seen : List (List PathPart)) (visits : List Visited) :
    (firstVisits t seen visits).Pairwise fun v w => t.mark v.path ≠ t.mark w.path := by
  induction visits generalizing seen with
  | nil => exact .nil
  | cons v rest ih =>
    by_cases hv : t.mark v.path ∈ seen
    · rw [firstVisits_of_mem hv]
      exact ih seen
    · rw [firstVisits_of_notMem hv]
      refine .cons ?_ (ih _)
      intro w hw heq
      exact mark_notMem_of_mem_firstVisits hw (heq ▸ List.mem_cons_self)

/-- Every mark that is new is kept. -/
lemma exists_mem_firstVisits (h : v ∈ visits) (hnew : t.mark v.path ∉ seen) :
    ∃ w ∈ firstVisits t seen visits, t.mark w.path = t.mark v.path := by
  induction visits generalizing seen with
  | nil => cases h
  | cons first rest ih =>
    rcases List.mem_cons.mp h with rfl | h
    · rw [firstVisits_of_notMem hnew]
      exact ⟨v, List.mem_cons_self, rfl⟩
    · by_cases hseen : t.mark first.path ∈ seen
      · rw [firstVisits_of_mem hseen]
        exact ih h hnew
      · rw [firstVisits_of_notMem hseen]
        by_cases hfirst : t.mark v.path = t.mark first.path
        · exact ⟨first, List.mem_cons_self, hfirst.symm⟩
        · have hnew' : t.mark v.path ∉ t.mark first.path :: seen := by simp [hfirst, hnew]
          obtain ⟨w, hw, hmark⟩ := ih h hnew'
          exact ⟨w, List.mem_cons_of_mem _ hw, hmark⟩

/-- Where all marks are new and differ, all visits are kept. -/
lemma firstVisits_eq_self (hnew : ∀ v ∈ visits, t.mark v.path ∉ seen)
    (hdistinct : visits.Pairwise fun v w => t.mark v.path ≠ t.mark w.path) :
    firstVisits t seen visits = visits := by
  induction visits generalizing seen with
  | nil => rfl
  | cons v rest ih =>
    obtain ⟨hfirst, hrest⟩ := List.pairwise_cons.mp hdistinct
    rw [firstVisits_of_notMem (hnew v List.mem_cons_self), ih ?_ hrest]
    intro w hw hmem
    rcases List.mem_cons.mp hmem with heq | hmem
    · exact hfirst w hw heq.symm
    · exact hnew w (List.mem_cons_of_mem _ hw) hmem

end

/-! ## Names that a walk goes down -/

/-- Names along which a walk goes down: none is hidden, and the filter includes each directory on
the way. -/
structure IgnoreFilter.Passes (filter : IgnoreFilter) (names : List String) : Prop where
  visible : ∀ n ∈ names, FileName.isHidden n = false
  included : ∀ front, front <+: names → front ≠ [] → filter.includes (.ofNames front) true = true

lemma passes_nil (filter : IgnoreFilter) : filter.Passes [] where
  visible := by simp
  included front hfront hne := absurd (List.prefix_nil.mp hfront) hne

lemma IgnoreFilter.Passes.mono (h : filter.Passes more) (hnames : names <+: more) :
    filter.Passes names where
  visible n hn := h.visible n (hnames.subset hn)
  included front hfront hne := h.included front (hfront.trans hnames) hne

lemma passes_concat_iff : filter.Passes (names ++ [name]) ↔
    filter.Passes names ∧ FileName.isHidden name = false ∧
      filter.includes (.ofNames (names ++ [name])) true = true := by
  constructor
  · intro h
    have hlast := h.included (names ++ [name]) (List.prefix_refl _) (by simp)
    exact ⟨h.mono (List.prefix_append names [name]), h.visible name (by simp), hlast⟩
  · intro ⟨hpasses, hvisible, hincluded⟩
    constructor
    case visible =>
      intro n hn
      rcases List.mem_append.mp hn with hn | hn
      · exact hpasses.visible n hn
      · exact List.mem_singleton.mp hn ▸ hvisible
    case included =>
      intro front hfront hne
      rcases List.prefix_concat_iff.mp hfront with rfl | hfront
      · exact hincluded
      · exact hpasses.included front hfront hne

/-- A filter without rules leaves out only what is hidden. -/
lemma passes_everything (root : Path) (h : ∀ n ∈ names, FileName.isHidden n = false) :
    (IgnoreFilter.everything root).Passes names where
  visible := h
  included front _ _ := IgnoreFilter.includes_everything root (.ofNames front) true

lemma isDirectory_of_listedBy (h : listedBy filter root v = true) : v.entry = .directory := by
  unfold listedBy at h
  rw [Bool.and_assoc, Bool.and_eq_true] at h
  cases hentry : v.entry with
  | directory => rfl
  | file bytes seconds => simp [hentry, Entry.isDirectory] at h
  | link target => simp [hentry, Entry.isDirectory] at h

/-- What the walk asks about a directory that it comes to by one more name. -/
lemma listedBy_comeBy_iff (hroot : root.text ≠ "") (hn : ∀ n ∈ names ++ [name], IsPlainName n) :
    listedBy filter root (comeBy (root.follow names) depth name here) = true ↔
      FileName.isHidden name = false ∧
        filter.includes (.ofNames (names ++ [name])) true = true := by
  have hrelative := Path.relativeTo?_follow hroot hn
  rw [Path.follow_concat] at hrelative
  simp only [listedBy, comeBy, Visited.fromRoot, hrelative, Option.getD_some, Entry.isDirectory,
    Bool.true_and, Bool.and_eq_true, Bool.not_eq_true']

/-! ## Soundness and completeness -/

/-- What is visited is where names lead along which a walk goes down. -/
theorem descend?_of_mem_visitBelow (ht : t.WellFormed) (hroot : root.text ≠ "")
    (hn : ∀ n ∈ names, IsPlainName n) (hpasses : filter.Passes names)
    (hv : v ∈ t.visitBelow true (listedBy filter root) trail depth (root.follow names) here) :
    ∃ more, more ≠ [] ∧ v.path = root.follow (names ++ more) ∧ filter.Passes (names ++ more) ∧
      t.descend? trail (root.follow names) here more = some v.location := by
  induction trail, here using t.descent_induction generalizing names depth with
  | step trail here ihdirectory ihlink =>
    obtain ⟨name, there, henters, hlisted, hv⟩ :=
      (mem_visitBelow_iff fun _ => isDirectory_of_listedBy).mp hv
    have hname := (isEntryName_of_entered? ht henters).toIsPlainName
    have hn' : ∀ n ∈ names ++ [name], IsPlainName n := by
      simpa [or_imp, forall_and] using ⟨hn, hname⟩
    have hpasses' : filter.Passes (names ++ [name]) :=
      passes_concat_iff.mpr ⟨hpasses, (listedBy_comeBy_iff hroot hn').mp hlisted⟩
    rcases hv with rfl | hv
    · refine ⟨[name], by simp, (Path.follow_concat _ _ _).symm, hpasses', ?_⟩
      rw [descend?, henters]
      rfl
    · rw [← Path.follow_concat] at hv
      have hrest : ∃ more, more ≠ [] ∧ v.path = root.follow (names ++ [name] ++ more) ∧
          filter.Passes (names ++ [name] ++ more) ∧
          t.descend? (there :: trail) (root.follow (names ++ [name])) there more =
            some v.location := by
        rcases (entered?_eq_some_iff.mp henters).2 with ⟨hentry, rfl⟩ | ⟨-, hfind, hnew⟩
        · exact ihdirectory name hentry hn' hpasses' hv
        · exact ihlink there (find_eq_ok_iff.mp hfind).2 hnew hn' hpasses' hv
      obtain ⟨more, -, hpath, hmore, hdescend⟩ := hrest
      rw [List.append_assoc, List.singleton_append] at hpath hmore
      refine ⟨name :: more, by simp, hpath, hmore, ?_⟩
      rw [descend?, henters, Option.bind_some, ← Path.follow_concat]
      exact hdescend

/-- Where names lead along which a walk goes down, the walk comes by. -/
theorem exists_mem_visitBelow (ht : t.WellFormed) (hroot : root.text ≠ "")
    (hn : ∀ n ∈ names, IsPlainName n) (hpasses : filter.Passes (names ++ more)) (hne : more ≠ [])
    (h : t.descend? trail (root.follow names) here more = some k) :
    ∃ v ∈ t.visitBelow true (listedBy filter root) trail depth (root.follow names) here,
      v.path = root.follow (names ++ more) ∧ v.location = k := by
  induction more generalizing names trail depth here with
  | nil => exact absurd rfl hne
  | cons name rest ih =>
    obtain ⟨there, henters, hrest⟩ := descend?_cons_eq_some h
    have hname := (isEntryName_of_entered? ht henters).toIsPlainName
    have hn' : ∀ n ∈ names ++ [name], IsPlainName n := by
      simpa [or_imp, forall_and] using ⟨hn, hname⟩
    rw [← List.singleton_append, ← List.append_assoc] at hpasses ⊢
    have hpasses' := hpasses.mono (List.prefix_append (names ++ [name]) rest)
    have hlisted : listedBy filter root (comeBy (root.follow names) depth name there) = true :=
      (listedBy_comeBy_iff hroot hn').mpr (passes_concat_iff.mp hpasses').2
    by_cases hnil : rest = []
    · subst hnil
      obtain rfl := Option.some.inj hrest
      refine ⟨comeBy (root.follow names) depth name there, ?_, ?_, rfl⟩
      · rw [mem_visitBelow_iff fun _ => isDirectory_of_listedBy]
        exact ⟨name, there, henters, hlisted, .inl rfl⟩
      · rw [List.append_nil, Path.follow_concat]
        rfl
    · rw [← Path.follow_concat] at hrest
      have hbelow : ∃ v ∈ t.visitBelow true (listedBy filter root) (there :: trail) (depth + 1)
          (root.follow (names ++ [name])) there,
          v.path = root.follow (names ++ [name] ++ rest) ∧ v.location = k :=
        ih hn' hpasses hnil hrest
      obtain ⟨v, hv, hpath, hlocation⟩ := hbelow
      refine ⟨v, ?_, hpath, hlocation⟩
      rw [mem_visitBelow_iff fun _ => isDirectory_of_listedBy]
      rw [Path.follow_concat] at hv
      exact ⟨name, there, henters, hlisted, .inr hv⟩

/-! ## The walk as first visits -/

section
variable (ht : t.WellFormed) (hroot : t.find root = .ok (l, .directory))
include ht hroot

lemma descend?_of_mem_visits (hv : v ∈ t.visitBelow true (listedBy filter root) [l] 1 root l) :
    ∃ names, names ≠ [] ∧ v.path = root.follow names ∧ filter.Passes names ∧
      t.descend? [l] root l names = some v.location := by
  have hnone : ∀ n ∈ ([] : List String), IsPlainName n := by simp
  exact descend?_of_mem_visitBelow ht (text_ne_empty_of_find hroot) hnone (passes_nil filter) hv

lemma exists_mem_visits (hpasses : filter.Passes names) (hne : names ≠ [])
    (h : t.descend? [l] root l names = some k) :
    ∃ v ∈ t.visitBelow true (listedBy filter root) [l] 1 root l,
      v.path = root.follow names ∧ v.location = k := by
  have hnone : ∀ n ∈ ([] : List String), IsPlainName n := by simp
  exact exists_mem_visitBelow ht (text_ne_empty_of_find hroot) hnone hpasses hne h

/-- The path of a visit leads to its place. -/
lemma leadsInto_of_mem_visits (hv : v ∈ t.visitBelow true (listedBy filter root) [l] 1 root l) :
    t.LeadsInto v.path v.location := by
  obtain ⟨names, -, hpath, -, hdescend⟩ := descend?_of_mem_visits ht hroot hv
  rw [hpath]
  exact leadsInto_of_descend? ht (leadsInto_of_find hroot) hdescend

end

/-- A walk lists the root, and what it comes by below with marks that are new. -/
theorem walk_eq (hroot : t.find root = .ok (l, .directory)) :
    walk t filter root = root ::
      (firstVisits t [t.mark root]
        (t.visitBelow true (listedBy filter root) [l] 1 root l)).map (·.path) := by
  have hdirectories : ∀ v ∈ (⟨root, 0, root.displayName, .directory, l⟩ : Visited) ::
      t.visitBelow true (listedBy filter root) [l] 1 root l, v.entry.isDirectory = true := by
    intro v hv
    rcases List.mem_cons.mp hv with rfl | hv
    · rfl
    · rw [entry_of_mem_visitBelow (fun _ => isDirectory_of_listedBy) hv]
      rfl
  have hisDirectory : Entry.directory.isDirectory = true := rfl
  unfold walk visit
  rw [hroot]
  dsimp only
  rw [if_pos hisDirectory, List.filter_eq_self.mpr hdirectories,
    firstVisits_of_notMem List.not_mem_nil, List.map_cons]

end DirectoryNotes
