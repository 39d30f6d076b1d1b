import DirectoryNotes.Proofs.FileTree.Following

/-!
# Descending with links followed

A descent that lists only directories goes from a directory to those in it and to those that its
links lead to, unless it is in them already:

* `descent_induction`: what a descent has to preserve in one step, it preserves all the way;
* `entered?`: one step. `visitBelow_eq` and `mem_visitBelow_iff` say that a descent is made of such
  steps and of nothing else;
* `descend?`: many steps. `leadsInto_of_descend?` and `descend?_of_find` compare them with where the
  path of the names leads;
* `AdmitsAbove`: the paths that a descent reads on its way are not too long for the file system;
* `Precedes`: the order of directories before what is below them and of names by their bytes.
  `pairwise_visitBelow` says that without links a descent keeps to it.
-/

namespace DirectoryNotes

open Text

namespace FileTree

variable {t : FileTree} {lists : Visited → Bool} {trail : List Location} {depth : Nat} {path : Path}
  {here there : Location} {name : String} {v : Visited}

/-! ## Induction -/

/-- Each step of a descent goes to a directory with fewer entries below it, or to one that the
descent was not in. -/
theorem descent_induction {motive : List Location → Location → Prop}
    (step : ∀ trail here,
      (∀ name, t.entryAt? (here ++ [name]) = some .directory →
        motive ((here ++ [name]) :: trail) (here ++ [name])) →
      (∀ there, t.entryAt? there = some .directory → there ∉ trail → motive (there :: trail) there) →
      motive trail here) (trail : List Location) (here : Location) : motive trail here :=
  step trail here (fun _ _ => descent_induction step _ _) (fun _ _ _ => descent_induction step _ _)
termination_by (t.offList trail, t.below here)
decreasing_by
  · next name hentry =>
    have hle := t.offList_cons_le trail (here ++ [name])
    have hlt := below_child_lt hentry
    rw [Prod.lex_def]
    omega
  · next there hentry hnew =>
    have hlt := offList_cons_lt hentry hnew
    rw [Prod.lex_def]
    omega

/-! ## Steps -/

/-- The directory that a name in a directory stands for: one of that name, or one that a link of that
name leads to, unless the descent is in it. -/
def named? (t : FileTree) (trail : List Location) (path : Path) (here : Location)
    (name : String) : Option Location :=
  match t.entryAt? (here ++ [name]), t.find (path.join ⟨name⟩) with
  | some .directory, _ => some (here ++ [name])
  | some (.link _), .ok (there, .directory) => if trail.contains there then none else some there
  | _, _ => none

/-- The directory that a descent comes to by a name, if the file system takes the path so far. -/
def entered? (t : FileTree) (trail : List Location) (path : Path) (here : Location)
    (name : String) : Option Location :=
  if path.IsAdmitted then t.named? trail path here name else none

lemma named?_eq_some_iff : t.named? trail path here name = some there ↔
    t.entryAt? (here ++ [name]) = some .directory ∧ there = here ++ [name] ∨
      (∃ target, t.entryAt? (here ++ [name]) = some (.link target)) ∧
        t.find (path.join ⟨name⟩) = .ok (there, .directory) ∧ there ∉ trail := by
  unfold named?
  cases hentry : t.entryAt? (here ++ [name]) with
  | none => simp
  | some e =>
    cases e with
    | directory => simp [eq_comm]
    | file bytes seconds => simp
    | link target =>
      cases hfind : t.find (path.join ⟨name⟩) with
      | error reason => simp
      | ok found =>
        obtain ⟨k, e⟩ := found
        cases e with
        | directory =>
          simp only [reduceCtorEq, false_and, false_or, Option.some.injEq, Entry.link.injEq,
            exists_eq', true_and, Except.ok.injEq, Prod.mk.injEq, and_true]
          constructor
          · intro h
            obtain ⟨hnew, heq⟩ := Option.ite_none_left_eq_some.mp h
            obtain rfl := Option.some.inj heq
            exact ⟨rfl, mt List.contains_iff_mem.mpr hnew⟩
          · rintro ⟨rfl, hnew⟩
            rw [if_neg (mt List.contains_iff_mem.mp hnew)]
        | file bytes seconds => simp
        | link target' => simp

lemma entered?_eq_some_iff : t.entered? trail path here name = some there ↔
    path.IsAdmitted ∧ (t.entryAt? (here ++ [name]) = some .directory ∧ there = here ++ [name] ∨
      (∃ target, t.entryAt? (here ++ [name]) = some (.link target)) ∧
        t.find (path.join ⟨name⟩) = .ok (there, .directory) ∧ there ∉ trail) := by
  rw [entered?, Option.ite_none_right_eq_some, named?_eq_some_iff]

lemma namesOn_of_admitted (h : path.IsAdmitted) : t.namesOn path here = t.sortedChildren here := by
  rw [namesOn, begin_of_admitted t h]

lemma namesOn_of_not_admitted (h : ¬path.IsAdmitted) : t.namesOn path here = [] := by
  obtain ⟨reason, hreason⟩ := begin_of_not_admitted h
  rw [namesOn, hreason t]

/-- A directory as a descent comes by it. -/
def comeBy (path : Path) (depth : Nat) (name : String) (there : Location) : Visited :=
  ⟨path.join ⟨name⟩, depth, name, .directory, there⟩

/-- What a descent visits at a name and below it. -/
def visitName (t : FileTree) (lists : Visited → Bool) (trail : List Location) (depth : Nat)
    (path : Path) (here : Location) (name : String) : List Visited :=
  match t.entered? trail path here name with
  | none => []
  | some there =>
    if lists (comeBy path depth name there) then
      comeBy path depth name there ::
        t.visitBelow true lists (there :: trail) (depth + 1) (path.join ⟨name⟩) there
    else []

/-- A descent that lists only directories visits what it comes to by the names in the directory. -/
theorem visitBelow_eq (hlists : ∀ v, lists v = true → v.entry = .directory) :
    t.visitBelow true lists trail depth path here =
      (t.sortedChildren here).flatMap (t.visitName lists trail depth path here) := by
  have hunlisted : ∀ v, v.entry ≠ .directory → (if lists v then [v] else []) = [] :=
    fun v hv => if_neg fun hlisted => hv (hlists v hlisted)
  by_cases hadmitted : path.IsAdmitted
  case neg =>
    rw [visitBelow, namesOn_of_not_admitted hadmitted, List.flatMap_nil, eq_comm,
      List.flatMap_eq_nil_iff]
    intro name _
    rw [visitName, entered?, if_neg hadmitted]
  rw [visitBelow, namesOn_of_admitted hadmitted]
  refine List.flatMap_congr fun name _ => ?_
  unfold visitName entered?
  rw [if_pos hadmitted]
  unfold named?
  dsimp only
  split
  · next hentry => rw [hentry]
  · next hentry => rw [hentry]; rfl
  · next bytes seconds hentry => rw [hentry]; exact hunlisted _ (by simp)
  · next target hentry =>
    rw [hentry, if_pos rfl]
    split
    · next hfind => rw [hfind]
    · next there hfind =>
      rw [hfind]
      dsimp only
      by_cases hseen : there ∈ trail
      · rw [dif_pos hseen, if_pos (List.contains_iff_mem.mpr hseen)]
      · rw [dif_neg hseen, if_neg (mt List.contains_iff_mem.mp hseen)]
        rfl
    · next there e hfile hfind =>
      rw [hfind, hunlisted _ hfile]
      cases e with
      | directory => exact absurd rfl hfile
      | file => rfl
      | link => rfl

lemma mem_sortedChildren_iff :
    name ∈ t.sortedChildren here ↔ ∃ e, t.entryAt? (here ++ [name]) = some e := by
  unfold sortedChildren
  rw [List.mem_mergeSort, mem_children_iff, Option.isSome_iff_exists]

lemma mem_namesOn_iff :
    name ∈ t.namesOn path here ↔ path.IsAdmitted ∧ ∃ e, t.entryAt? (here ++ [name]) = some e := by
  by_cases hadmitted : path.IsAdmitted
  · simp only [namesOn_of_admitted hadmitted, mem_sortedChildren_iff, hadmitted, true_and]
  · simp [namesOn_of_not_admitted hadmitted, hadmitted]

/-- What is visited below a directory is a directory that one step leads to, or lies below one. -/
theorem mem_visitBelow_iff (hlists : ∀ v, lists v = true → v.entry = .directory) :
    v ∈ t.visitBelow true lists trail depth path here ↔
      ∃ name there, t.entered? trail path here name = some there ∧
        lists (comeBy path depth name there) = true ∧
        (v = comeBy path depth name there ∨
          v ∈ t.visitBelow true lists (there :: trail) (depth + 1) (path.join ⟨name⟩) there) := by
  rw [visitBelow_eq hlists, List.mem_flatMap]
  constructor
  · rintro ⟨name, -, hv⟩
    unfold visitName at hv
    split at hv
    · cases hv
    · next there henters =>
      split at hv
      · next hlisted => exact ⟨name, there, henters, hlisted, List.mem_cons.mp hv⟩
      · cases hv
  · rintro ⟨name, there, henters, hlisted, hv⟩
    have hentry : ∃ e, t.entryAt? (here ++ [name]) = some e := by
      rcases (entered?_eq_some_iff.mp henters).2 with ⟨hentry, -⟩ | ⟨⟨target, hentry⟩, -⟩
      · exact ⟨_, hentry⟩
      · exact ⟨_, hentry⟩
    refine ⟨name, mem_sortedChildren_iff.mpr hentry, ?_⟩
    unfold visitName
    rw [henters]
    dsimp only
    rw [if_pos hlisted]
    exact List.mem_cons.mpr hv

/-- A descent that lists only directories visits only directories. -/
lemma entry_of_mem_visitBelow (hlists : ∀ v, lists v = true → v.entry = .directory)
    (hv : v ∈ t.visitBelow true lists trail depth path here) : v.entry = .directory := by
  induction trail, here using t.descent_induction generalizing depth path with
  | step trail here ihdirectory ihlink =>
    obtain ⟨name, there, henters, hlisted, hv⟩ := (mem_visitBelow_iff hlists).mp hv
    rcases hv with rfl | hv
    · exact hlists _ hlisted
    · rcases (entered?_eq_some_iff.mp henters).2 with ⟨hentry, rfl⟩ | ⟨-, hfind, hnew⟩
      · exact ihdirectory name hentry hv
      · exact ihlink there (find_eq_ok_iff.mp hfind).2 hnew hv

/-! ## Many steps -/

/-- Where names lead a descent, one step for each. -/
def descend? (t : FileTree) (trail : List Location) (path : Path) (here : Location) :
    List String → Option Location
  | [] => some here
  | name :: rest =>
    (t.entered? trail path here name).bind fun there =>
      t.descend? (there :: trail) (path.join ⟨name⟩) there rest

lemma descend?_cons_eq_some {k : Location} {rest : List String}
    (h : t.descend? trail path here (name :: rest) = some k) :
    ∃ there, t.entered? trail path here name = some there ∧
      t.descend? (there :: trail) (path.join ⟨name⟩) there rest = some k :=
  Option.bind_eq_some_iff.mp h

section
variable {names : List String} {k : Location}

lemma isEntryName_of_entered? (ht : t.WellFormed)
    (h : t.entered? trail path here name = some there) : IsEntryName name := by
  rcases (entered?_eq_some_iff.mp h).2 with ⟨hentry, -⟩ | ⟨⟨target, hentry⟩, -⟩
  · exact ht.isEntryName hentry name (by simp)
  · exact ht.isEntryName hentry name (by simp)

lemma isEntryName_of_descend? (ht : t.WellFormed)
    (h : t.descend? trail path here names = some k) : ∀ n ∈ names, IsEntryName n := by
  induction names generalizing trail path here with
  | nil => simp
  | cons name rest ih =>
    obtain ⟨there, henters, hrest⟩ := descend?_cons_eq_some h
    intro n hn
    rcases List.mem_cons.mp hn with rfl | hn
    · exact isEntryName_of_entered? ht henters
    · exact ih hrest n hn

lemma text_join_ne_empty (hpath : path.text ≠ "") (hname : IsPlainName name) :
    (path.join ⟨name⟩).text ≠ "" := by
  have hnames : ∀ n ∈ [name], IsPlainName n := by simpa using hname
  exact text_follow_ne_empty hpath hnames

lemma isAdmitted_of_follow (hpath : path.text ≠ "") (hn : ∀ n ∈ names, IsPlainName n)
    (h : (path.follow names).IsAdmitted) : path.IsAdmitted := by
  induction names generalizing path with
  | nil => exact h
  | cons name rest ih =>
    have hname := hn name (by simp)
    have hrest : ∀ n ∈ rest, IsPlainName n := fun n hmem => hn n (List.mem_cons_of_mem _ hmem)
    have hjoin := text_join_ne_empty hpath hname
    exact isAdmitted_of_join hpath hname (ih hjoin hrest h)

/-- The file system takes the paths of the directories that names lead through on their way down. -/
def AdmitsAbove (path : Path) (names : List String) : Prop :=
  ∀ front, front <+: names → front ≠ names → (path.follow front).IsAdmitted

lemma admitsAbove_nil (path : Path) : AdmitsAbove path [] :=
  fun _ hfront hne => absurd (List.prefix_nil.mp hfront) hne

lemma admitsAbove_cons_iff {rest : List String} : AdmitsAbove path (name :: rest) ↔
    path.IsAdmitted ∧ AdmitsAbove (path.join ⟨name⟩) rest := by
  constructor
  · intro h
    refine ⟨h [] List.nil_prefix (by simp), fun front hfront hne => ?_⟩
    rw [← Path.follow_cons]
    exact h (name :: front) ((List.prefix_cons_inj name).mpr hfront) (by simpa using hne)
  · rintro ⟨hpath, hrest⟩ front hfront hne
    rcases List.prefix_cons_iff.mp hfront with rfl | ⟨more, rfl, hmore⟩
    · exact hpath
    · exact hrest more hmore (by simpa using hne)

lemma admitsAbove_concat_iff : AdmitsAbove path (names ++ [name]) ↔
    AdmitsAbove path names ∧ (path.follow names).IsAdmitted := by
  induction names generalizing path with
  | nil => simp [admitsAbove_cons_iff, admitsAbove_nil]
  | cons n rest ih =>
    rw [List.cons_append, admitsAbove_cons_iff, admitsAbove_cons_iff, ih, Path.follow_cons, and_assoc]

/-- The paths on the way down are taken where the last of them is. -/
lemma admitsAbove_of_admitted (hpath : path.text ≠ "") (hn : ∀ n ∈ names, IsPlainName n)
    (h : (path.follow names).IsAdmitted) : AdmitsAbove path names := by
  rintro front ⟨back, rfl⟩ -
  have hfront : ∀ n ∈ front, IsPlainName n := fun n hmem => hn n (List.mem_append_left _ hmem)
  have hback : ∀ n ∈ back, IsPlainName n := fun n hmem => hn n (List.mem_append_right _ hmem)
  rw [Path.follow_append] at h
  exact isAdmitted_of_follow (text_follow_ne_empty hpath hfront) hback h

/-- A step goes where the path leads. -/
lemma leadsInto_of_entered? (ht : t.WellFormed) (hpath : t.LeadsInto path here)
    (h : t.entered? trail path here name = some there) :
    t.LeadsInto (path.join ⟨name⟩) there := by
  have hname := isEntryName_of_entered? ht h
  rcases (entered?_eq_some_iff.mp h).2 with ⟨hentry, rfl⟩ | ⟨-, hfind, -⟩
  · exact hpath.join hname hentry
  · exact leadsInto_of_find hfind

/-- Many steps go where the path leads. -/
theorem leadsInto_of_descend? (ht : t.WellFormed) (hpath : t.LeadsInto path here)
    (h : t.descend? trail path here names = some k) : t.LeadsInto (path.follow names) k := by
  induction names generalizing trail path here with
  | nil =>
    obtain rfl := Option.some.inj h
    exact hpath
  | cons name rest ih =>
    obtain ⟨there, henters, hrest⟩ := descend?_cons_eq_some h
    rw [Path.follow_cons]
    exact ih (leadsInto_of_entered? ht hpath henters) hrest

/-- A descent reads the paths on its way. -/
lemma admitsAbove_of_descend? (h : t.descend? trail path here names = some k) :
    AdmitsAbove path names := by
  induction names generalizing trail path here with
  | nil => exact admitsAbove_nil path
  | cons name rest ih =>
    obtain ⟨there, henters, hrest⟩ := descend?_cons_eq_some h
    exact admitsAbove_cons_iff.mpr ⟨(entered?_eq_some_iff.mp henters).1, ih hrest⟩

/-- The names of a directory below lead a descent there, if the paths on the way are taken. -/
lemma descend?_of_directory (ht : t.WellFormed) (h : t.entryAt? (here ++ names) = some .directory)
    (habove : AdmitsAbove path names) : t.descend? trail path here names = some (here ++ names) := by
  induction names generalizing trail path here with
  | nil => rw [descend?, List.append_nil]
  | cons name rest ih =>
    obtain ⟨hadmitted, habove⟩ := admitsAbove_cons_iff.mp habove
    rw [← List.singleton_append, ← List.append_assoc] at h ⊢
    have hentry : t.entryAt? (here ++ [name]) = some .directory := by
      by_cases hnil : rest = []
      · simpa [hnil] using h
      · exact ht.above hnil h
    have henters : t.entered? trail path here name = some (here ++ [name]) :=
      entered?_eq_some_iff.mpr ⟨hadmitted, .inl ⟨hentry, rfl⟩⟩
    rw [List.singleton_append, descend?, henters, Option.bind_some]
    exact ih h habove

/-- A path that leads to a directory is one that steps lead along, if the descent is not there
already. -/
lemma entered?_of_find (hpath : t.find path = .ok (here, .directory)) (hname : IsPlainName name)
    (h : t.find (path.join ⟨name⟩) = .ok (there, .directory)) (hnew : there ∉ trail) :
    t.entered? trail path here name = some there := by
  refine entered?_eq_some_iff.mpr ⟨isAdmitted_of_find hpath, ?_⟩
  by_cases hlink : ∃ target, t.entryAt? (here ++ [name]) = some (.link target)
  · exact .inr ⟨hlink, h, hnew⟩
  · obtain ⟨-, -, rfl, hentry⟩ := (find_join_iff hpath hname (not_exists.mp hlink)).mp h
    exact .inl ⟨hentry, rfl⟩

/-- Above a path that leads somewhere the path leads to directories. -/
lemma find_of_find_follow (hpath : path.text ≠ "") (hn : ∀ n ∈ names, IsPlainName n)
    (hne : names ≠ []) {e : Entry} (h : t.find (path.follow names) = .ok (k, e)) :
    ∃ l, t.find path = .ok (l, .directory) := by
  induction names generalizing path with
  | nil => exact absurd rfl hne
  | cons name rest ih =>
    have hname := hn name (by simp)
    have hrest : ∀ n ∈ rest, IsPlainName n := fun n hmem => hn n (List.mem_cons_of_mem _ hmem)
    have hjoin := text_join_ne_empty hpath hname
    rw [Path.follow_cons] at h
    by_cases hnil : rest = []
    · rw [hnil, Path.follow_nil] at h
      exact find_of_find_join hpath hname h
    · obtain ⟨l, hl⟩ := ih hjoin hrest hnil h
      exact find_of_find_join hpath hname hl

/-- Names whose path leads to a directory lead a descent there, if no two of the directories on the
way are the same and the descent is in none of them. -/
theorem descend?_of_find (hpath : t.find path = .ok (here, .directory))
    (hn : ∀ n ∈ names, IsPlainName n) (h : t.find (path.follow names) = .ok (k, .directory))
    (hfresh : ∀ front, front <+: names → front ≠ [] → ∀ m e,
      t.find (path.follow front) = .ok (m, e) → m ∉ trail)
    (hdistinct : ∀ front back, front <+: names → back <+: names → ∀ m e e',
      t.find (path.follow front) = .ok (m, e) → t.find (path.follow back) = .ok (m, e') →
        front = back) :
    t.descend? trail path here names = some k := by
  induction names generalizing trail path here with
  | nil =>
    rw [Path.follow_nil, hpath] at h
    rw [descend?, (Prod.mk.inj (Except.ok.inj h)).1]
  | cons name rest ih =>
    have hname := hn name (by simp)
    have hrest : ∀ n ∈ rest, IsPlainName n := fun n hmem => hn n (List.mem_cons_of_mem _ hmem)
    have hjoin := text_join_ne_empty (text_ne_empty_of_find hpath) hname
    obtain ⟨there, hthere⟩ : ∃ there, t.find (path.join ⟨name⟩) = .ok (there, .directory) := by
      by_cases hnil : rest = []
      · rw [hnil] at h
        exact ⟨k, h⟩
      · exact find_of_find_follow hjoin hrest hnil h
    have hone : [name] <+: name :: rest := List.prefix_append [name] rest
    have henters := entered?_of_find hpath hname hthere (hfresh [name] hone (by simp) _ _ hthere)
    rw [descend?, henters, Option.bind_some]
    refine ih hthere hrest h ?_ ?_
    · intro front hfront hne m e hm hmem
      have hlonger : name :: front <+: name :: rest := (List.prefix_cons_inj name).mpr hfront
      rcases List.mem_cons.mp hmem with rfl | hmem
      · -- the directory would be on the way twice
        have heq := hdistinct [name] (name :: front) hone hlonger _ _ _ hthere hm
        exact hne (List.cons.inj heq).2.symm
      · exact hfresh (name :: front) hlonger (by simp) m e hm hmem
    · intro front back hfront hback m e e' hm hm'
      have heq := hdistinct (name :: front) (name :: back) ((List.prefix_cons_inj name).mpr hfront)
        ((List.prefix_cons_inj name).mpr hback) m e e' hm hm'
      exact (List.cons.inj heq).2

end

/-! ## The order of a descent -/

/-- A directory precedes what is below it, and of two things in one directory the one whose name
comes first in the order of bytes precedes the other with all that is below. -/
def Precedes (a b : Location) : Prop := List.Lex (fun m n => bytesOf m < bytesOf n) a b

section
variable {a b l : Location}

lemma precedes_append (a : Location) (hb : b ≠ []) : Precedes a (a ++ b) := by
  induction a with
  | nil =>
    obtain ⟨n, ns, rfl⟩ := List.exists_cons_of_ne_nil hb
    exact .nil
  | cons n ns ih => exact .cons ih

lemma precedes_append_left_iff : Precedes (l ++ a) (l ++ b) ↔ Precedes a b := by
  induction l with
  | nil => exact Iff.rfl
  | cons n ns ih =>
    constructor
    · intro h
      cases h with
      | rel h => exact absurd h (List.lt_irrefl _)
      | cons h => exact ih.mp h
    · exact fun h => .cons (ih.mpr h)

/-- Of two locations at most one precedes the other. -/
instance : Std.Asymm Precedes :=
  have : Std.Asymm fun m n : String => bytesOf m < bytesOf n := ⟨fun _ _ => List.lt_asymm⟩
  inferInstanceAs (Std.Asymm (List.Lex fun m n => bytesOf m < bytesOf n))

lemma not_precedes_self (a : Location) : ¬Precedes a a := irrefl a

end

/-- The names in a directory come in the order of their bytes, each once. -/
lemma pairwise_sortedChildren (ht : t.WellFormed) (l : Location) :
    (t.sortedChildren l).Pairwise fun m n => bytesOf m < bytesOf n :=
  pairwise_bytesOf_mergeSort (ht.nodup_children l)

lemma pairwise_namesOn (ht : t.WellFormed) (path : Path) (l : Location) :
    (t.namesOn path l).Pairwise fun m n => bytesOf m < bytesOf n := by
  by_cases hadmitted : path.IsAdmitted
  · rw [namesOn_of_admitted hadmitted]
    exact pairwise_sortedChildren ht l
  · rw [namesOn_of_not_admitted hadmitted]
    exact .nil

section
variable (hlists : ∀ v, lists v = true → v.entry = .directory) (hlinks : t.LinkFreeBelow here)
include hlinks

/-- Without links a step goes to the directory of the name. -/
lemma entered?_of_linkFree (h : t.entered? trail path here name = some there) :
    t.entryAt? (here ++ [name]) = some .directory ∧ there = here ++ [name] := by
  rcases (entered?_eq_some_iff.mp h).2 with hdirectory | ⟨⟨target, hentry⟩, -⟩
  · exact hdirectory
  · exact absurd hentry (hlinks [name] target)

lemma linkFreeBelow_child (name : String) : t.LinkFreeBelow (here ++ [name]) := by
  intro m target
  rw [List.append_assoc]
  exact hlinks ([name] ++ m) target

/-- Without links names lead a descent to the directory below that has them, if there is one and the
paths on the way are taken. -/
lemma descend?_linkFree_iff (ht : t.WellFormed) (hhere : t.entryAt? here = some .directory)
    {names : List String} {k : Location} :
    t.descend? trail path here names = some k ↔
      k = here ++ names ∧ t.entryAt? (here ++ names) = some .directory ∧ AdmitsAbove path names := by
  constructor
  · intro h
    refine (and_assoc.mp ⟨?_, admitsAbove_of_descend? h⟩)
    induction names generalizing trail path here with
    | nil => simpa [descend?, hhere, eq_comm] using h
    | cons name rest ih =>
      obtain ⟨there, henters, hrest⟩ := descend?_cons_eq_some h
      obtain ⟨hentry, rfl⟩ := entered?_of_linkFree hlinks henters
      have hbelow := ih (linkFreeBelow_child hlinks name) hentry hrest
      rwa [List.append_assoc, List.singleton_append] at hbelow
  · rintro ⟨rfl, hplace, habove⟩
    exact descend?_of_directory ht hplace habove

include hlists

/-- Without links what is visited lies below, as its path says. -/
lemma location_of_mem_visitBelow (hv : v ∈ t.visitBelow true lists trail depth path here) :
    ∃ more, more ≠ [] ∧ v.location = here ++ more ∧ v.path = path.follow more := by
  induction trail, here using t.descent_induction generalizing depth path with
  | step trail here ihdirectory _ =>
    obtain ⟨name, there, henters, -, hv⟩ := (mem_visitBelow_iff hlists).mp hv
    obtain ⟨hentry, rfl⟩ := entered?_of_linkFree hlinks henters
    rcases hv with rfl | hv
    · exact ⟨[name], by simp, rfl, rfl⟩
    · obtain ⟨more, -, hlocation, hpath⟩ :=
        ihdirectory name hentry (linkFreeBelow_child hlinks name) hv
      refine ⟨name :: more, by simp, ?_, ?_⟩
      · rw [hlocation, List.append_assoc, List.singleton_append]
      · rw [hpath, Path.follow_cons]

lemma location_of_mem_visitName (hv : v ∈ t.visitName lists trail depth path here name) :
    ∃ more, v.location = here ++ name :: more := by
  unfold visitName at hv
  split at hv
  · cases hv
  · next there henters =>
    obtain ⟨hentry, rfl⟩ := entered?_of_linkFree hlinks henters
    split at hv
    · rcases List.mem_cons.mp hv with rfl | hv
      · exact ⟨[], rfl⟩
      · obtain ⟨more, -, hlocation, -⟩ :=
          location_of_mem_visitBelow hlists (linkFreeBelow_child hlinks name) hv
        exact ⟨more, by rw [hlocation, List.append_assoc, List.singleton_append]⟩
    · cases hv

/-- Without links a descent visits directories before what is below them and names in the order of
their bytes. -/
theorem pairwise_visitBelow (ht : t.WellFormed) :
    (t.visitBelow true lists trail depth path here).Pairwise fun v w =>
      Precedes v.location w.location := by
  induction trail, here using t.descent_induction generalizing depth path with
  | step trail here ihdirectory _ =>
    rw [visitBelow_eq hlists, List.pairwise_flatMap]
    constructor
    · intro name _
      unfold visitName
      split
      · exact .nil
      · next there henters =>
        obtain ⟨hentry, rfl⟩ := entered?_of_linkFree hlinks henters
        have hchild := linkFreeBelow_child hlinks name
        split
        · refine .cons ?_ (ihdirectory name hentry hchild)
          intro w hw
          obtain ⟨more, hmore, hlocation, -⟩ := location_of_mem_visitBelow hlists hchild hw
          rw [hlocation]
          exact precedes_append _ hmore
        · exact .nil
    · refine (pairwise_sortedChildren ht here).imp ?_
      intro m n hmn v hv w hw
      obtain ⟨more, hm⟩ := location_of_mem_visitName hlists hlinks hv
      obtain ⟨more', hn⟩ := location_of_mem_visitName hlists hlinks hw
      rw [hm, hn]
      exact precedes_append_left_iff.mpr (.rel hmn)

end

end FileTree

end DirectoryNotes
