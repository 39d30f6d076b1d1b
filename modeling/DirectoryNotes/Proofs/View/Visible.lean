import DirectoryNotes.Proofs.FileTree.Descent
import DirectoryNotes.Proofs.View.Sketch

/-!
# What there is to be drawn

The entries below a directory, down to a depth, hidden ones and installed packages left out, as the
tree has them:

* `IsVisible`: the names that lead to them. `ComesFirst` is the order in which they are drawn, and
  `lineOf` the line of each;
* `sketchOf`: all of them in one another. `mem_entries_sketchOf`, `pairwise_entries_sketchOf` and
  `lines_sketchOf` say that it has these entries, in this order and with these lines.
-/

namespace DirectoryNotes.Drawing

open FileTree Text

variable {t : FileTree} {l : Location} {depth : Nat} {name m n : String} {names more : List String}
  {margin : String}

/-! ## One directory -/

/-- Whether a directory stands at a location. -/
def isDirectoryAt (t : FileTree) (l : Location) : Bool := (t.entryAt? l).any Entry.isDirectory

lemma isDirectoryAt_iff : isDirectoryAt t l = true ↔ t.entryAt? l = some .directory :=
  any_isDirectory_iff

/-- The names in a directory that are drawn. -/
def drawnNames (t : FileTree) (l : Location) : List String := (t.children l).filter isDrawn

lemma mem_drawnNames_iff :
    name ∈ drawnNames t l ↔ (t.entryAt? (l ++ [name])).isSome ∧ isDrawn name = true := by
  rw [drawnNames, List.mem_filter, mem_children_iff]

lemma nodup_drawnNames (ht : t.WellFormed) (l : Location) : (drawnNames t l).Nodup :=
  (ht.nodup_children l).filter _

/-- Of two names in a directory the first stands above the other: directories stand above files, and
names of one kind in the order of their bytes. -/
def StandsAbove (t : FileTree) (l : Location) (m n : String) : Prop :=
  (isDirectoryAt t (l ++ [m]) = true ∧ isDirectoryAt t (l ++ [n]) = false) ∨
    (isDirectoryAt t (l ++ [m]) = isDirectoryAt t (l ++ [n]) ∧ bytesOf m < bytesOf n)

instance (t : FileTree) (l : Location) (m n : String) : Decidable (StandsAbove t l m n) :=
  inferInstanceAs (Decidable (_ ∨ _))

lemma StandsAbove.asymm (h : StandsAbove t l m n) : ¬StandsAbove t l n m := by
  intro h'
  rcases h with ⟨hm, hn⟩ | ⟨hkind, hlt⟩
  · rcases h' with ⟨hn', -⟩ | ⟨hkind, -⟩
    · rw [hn] at hn'
      cases hn'
    · rw [hm, hn] at hkind
      cases hkind
  · rcases h' with ⟨hn, hm⟩ | ⟨-, hlt'⟩
    · rw [hm, hn] at hkind
      cases hkind
    · exact List.lt_asymm hlt hlt'

lemma not_standsAbove_self (t : FileTree) (l : Location) (n : String) : ¬StandsAbove t l n n :=
  fun h => h.asymm h

/-- The order in which the names in a directory are sorted. -/
def nameOrder (t : FileTree) (l : Location) (m n : String) : Bool :=
  if isDirectoryAt t (l ++ [m]) == isDirectoryAt t (l ++ [n]) then m ≤ n
  else isDirectoryAt t (l ++ [m])

/-- The names in a directory that are drawn, from the first to the last. -/
def arranged (t : FileTree) (l : Location) : List String :=
  (drawnNames t l).mergeSort (nameOrder t l)

lemma mem_arranged_iff : name ∈ arranged t l ↔ name ∈ drawnNames t l := List.mem_mergeSort

lemma nodup_arranged (ht : t.WellFormed) (l : Location) : (arranged t l).Nodup :=
  (List.mergeSort_perm _ _).nodup_iff.mpr (nodup_drawnNames ht l)

lemma pairwise_arranged (ht : t.WellFormed) (l : Location) :
    (arranged t l).Pairwise (StandsAbove t l) := by
  have hsorted : (arranged t l).Pairwise fun m n => nameOrder t l m n = true := by
    refine List.pairwise_mergeSort ?_ ?_ _
    · intro a b c hab hbc
      unfold nameOrder at *
      cases ha : isDirectoryAt t (l ++ [a]) <;> cases hb : isDirectoryAt t (l ++ [b]) <;>
        cases hc : isDirectoryAt t (l ++ [c]) <;> simp [ha, hb, hc] at hab hbc ⊢ <;>
        exact String.le_trans hab hbc
    · intro a b
      unfold nameOrder
      cases ha : isDirectoryAt t (l ++ [a]) <;> cases hb : isDirectoryAt t (l ++ [b]) <;>
        simp [String.le_total a b]
  refine (hsorted.and (nodup_arranged ht l)).imp ?_
  intro m n ⟨horder, hne⟩
  unfold nameOrder at horder
  by_cases hkind : isDirectoryAt t (l ++ [m]) = isDirectoryAt t (l ++ [n])
  · have hle : m ≤ n := by simpa [hkind] using horder
    exact .inr ⟨hkind, bytesOf_lt_bytesOf (lt_of_le_of_ne hle hne)⟩
  · have hm : isDirectoryAt t (l ++ [m]) = true := by simpa [hkind] using horder
    rw [hm] at hkind
    exact .inl ⟨hm, by simpa using Ne.symm hkind⟩

/-- What is no directory has no entries. -/
lemma arranged_of_not_directory (ht : t.WellFormed) (h : isDirectoryAt t l = false) :
    arranged t l = [] := by
  have hnone : ∀ name, name ∉ arranged t l := by
    intro name hmem
    obtain ⟨e, he⟩ := Option.isSome_iff_exists.mp (mem_drawnNames_iff.mp (mem_arranged_iff.mp hmem)).1
    rw [isDirectoryAt_iff.mpr (ht.parent he)] at h
    cases h
  exact List.eq_nil_iff_forall_not_mem.mpr hnone

/-- Whether a name stands below all others that are drawn in its directory. -/
def isLastIn (t : FileTree) (l : Location) (name : String) : Bool :=
  decide (∀ other ∈ drawnNames t l, ¬StandsAbove t l name other)

lemma isLastIn_eq (ht : t.WellFormed) {before after : List String}
    (h : arranged t l = before ++ name :: after) : isLastIn t l name = after.isEmpty := by
  have hpairwise := pairwise_arranged ht l
  rw [h, List.pairwise_append, List.pairwise_cons] at hpairwise
  obtain ⟨-, ⟨hafter, -⟩, hbefore⟩ := hpairwise
  rw [isLastIn, Bool.eq_iff_iff, decide_eq_true_eq, List.isEmpty_iff]
  constructor
  · intro hlast
    cases after with
    | nil => rfl
    | cons next rest =>
      have hmem : next ∈ drawnNames t l := mem_arranged_iff.mp (by simp [h])
      exact absurd (hafter next List.mem_cons_self) (hlast next hmem)
  · rintro rfl other hother
    have hmem : other ∈ before ++ [name] := by
      rw [← h]
      exact mem_arranged_iff.mpr hother
    rcases List.mem_append.mp hmem with hmem | hmem
    · exact (hbefore other hmem name List.mem_cons_self).asymm
    · rw [List.mem_singleton.mp hmem]
      exact not_standsAbove_self t l name

/-! ## Directory in directory -/

/-- The names that lead from a directory to an entry that is drawn, at most `depth` levels down. -/
structure IsVisible (t : FileTree) (l : Location) (depth : Nat) (names : List String) : Prop where
  ne_nil : names ≠ []
  depth : names.length ≤ depth
  drawn : ∀ n ∈ names, isDrawn n = true
  entry : (t.entryAt? (l ++ names)).isSome

lemma isVisible_singleton_iff : IsVisible t l (depth + 1) [name] ↔ name ∈ drawnNames t l := by
  rw [mem_drawnNames_iff]
  constructor
  · exact fun h => ⟨h.entry, h.drawn name (by simp)⟩
  · intro ⟨hentry, hdrawn⟩
    exact ⟨by simp, by simp, by simpa using hdrawn, hentry⟩

lemma isVisible_cons_iff (ht : t.WellFormed) (hmore : more ≠ []) :
    IsVisible t l (depth + 1) (name :: more) ↔
      name ∈ drawnNames t l ∧ IsVisible t (l ++ [name]) depth more := by
  have hassoc : l ++ name :: more = l ++ [name] ++ more := by simp
  rw [mem_drawnNames_iff]
  constructor
  · intro h
    have hentry := h.entry
    obtain ⟨e, he⟩ := Option.isSome_iff_exists.mp hentry
    rw [hassoc] at hentry he
    have hname : (t.entryAt? (l ++ [name])).isSome := by simp [ht.above hmore he]
    exact ⟨⟨hname, h.drawn name (by simp)⟩, hmore, by simpa using h.depth,
      fun n hn => h.drawn n (List.mem_cons_of_mem _ hn), hentry⟩
  · rintro ⟨⟨-, hdrawn⟩, h⟩
    refine ⟨by simp, by simpa using h.depth, ?_, by rw [hassoc]; exact h.entry⟩
    intro n hn
    rcases List.mem_cons.mp hn with rfl | hn
    · exact hdrawn
    · exact h.drawn n hn

/-- What is drawn in a directory that is visible is visible too, as far as the depth goes. -/
lemma IsVisible.concat (h : IsVisible t l depth names) (hdepth : names.length + 1 ≤ depth)
    (hname : name ∈ drawnNames t (l ++ names)) : IsVisible t l depth (names ++ [name]) := by
  obtain ⟨hentry, hdrawn⟩ := mem_drawnNames_iff.mp hname
  refine ⟨by simp, by simpa using hdepth, ?_, by rw [← List.append_assoc]; exact hentry⟩
  intro n hn
  rcases List.mem_append.mp hn with hn | hn
  · exact h.drawn n hn
  · rw [List.mem_singleton.mp hn]
    exact hdrawn

lemma not_isVisible_zero (t : FileTree) (l : Location) (names : List String) :
    ¬IsVisible t l 0 names :=
  fun h => h.ne_nil (List.eq_nil_of_length_eq_zero (Nat.le_zero.mp h.depth))

/-- What is drawn first: a directory before the entries in it, and of two entries of a directory the
one that stands above the other, with all that is in it. -/
inductive ComesFirst (t : FileTree) : Location → List String → List String → Prop
  | inside {l : Location} {n : String} {more : List String} : more ≠ [] →
      ComesFirst t l [n] (n :: more)
  | beside {l : Location} {m n : String} {ms ns : List String} : StandsAbove t l m n →
      ComesFirst t l (m :: ms) (n :: ns)
  | within {l : Location} {n : String} {ms ns : List String} : ComesFirst t (l ++ [n]) ms ns →
      ComesFirst t l (n :: ms) (n :: ns)

lemma ComesFirst.ne {names' : List String} (h : ComesFirst t l names names') : names ≠ names' := by
  induction h with
  | inside hmore => simpa using hmore.symm
  | beside habove =>
    intro heq
    obtain ⟨rfl, -⟩ := List.cons.inj heq
    exact not_standsAbove_self _ _ _ habove
  | within _ ih => exact fun heq => ih (List.cons.inj heq).2

/-- The line of an entry: below each directory on the way a mark that tells whether the directory is
the last one, and then the connector and the name. -/
def lineOf (t : FileTree) : Location → List String → String
  | _, [] => ""
  | l, [n] => branch (isLastIn t l n) ++ label n (isDirectoryAt t (l ++ [n]))
  | l, n :: next :: rest => stem (isLastIn t l n) ++ lineOf t (l ++ [n]) (next :: rest)

lemma lineOf_cons (hmore : more ≠ []) :
    lineOf t l (name :: more) = stem (isLastIn t l name) ++ lineOf t (l ++ [name]) more := by
  cases more with
  | nil => exact absurd rfl hmore
  | cons next rest => rw [lineOf]

/-! ## The sketch of a directory -/

/-- What there is to be drawn of a directory, `depth` levels of it. -/
def sketchOf (t : FileTree) : Nat → Location → Sketch
  | 0, _ => .nil
  | depth + 1, l =>
    (arranged t l).foldr
      (fun n rest => .cons n (isDirectoryAt t (l ++ [n])) (sketchOf t depth (l ++ [n])) rest) .nil

/-- What there is to be drawn of some entries of a directory, `depth` levels below each. -/
def sketchOfNames (t : FileTree) (depth : Nat) (l : Location) (names : List String) : Sketch :=
  names.foldr
    (fun n rest => .cons n (isDirectoryAt t (l ++ [n])) (sketchOf t depth (l ++ [n])) rest) .nil

lemma sketchOf_succ (t : FileTree) (depth : Nat) (l : Location) :
    sketchOf t (depth + 1) l = sketchOfNames t depth l (arranged t l) := rfl

@[simp] lemma sketchOfNames_nil : sketchOfNames t depth l [] = .nil := rfl

lemma sketchOfNames_cons : sketchOfNames t depth l (name :: names) =
    .cons name (isDirectoryAt t (l ++ [name])) (sketchOf t depth (l ++ [name]))
      (sketchOfNames t depth l names) := rfl

lemma isNil_sketchOfNames : (sketchOfNames t depth l names).isNil = names.isEmpty := by
  cases names <;> rfl

lemma sketchOf_of_not_directory (ht : t.WellFormed) (h : isDirectoryAt t l = false) (depth : Nat) :
    sketchOf t depth l = .nil := by
  cases depth with
  | zero => rfl
  | succ depth => rw [sketchOf_succ, arranged_of_not_directory ht h, sketchOfNames_nil]

lemma isSlashFree_sketchOf (ht : t.WellFormed) (depth : Nat) (l : Location) :
    (sketchOf t depth l).IsSlashFree := by
  induction depth generalizing l with
  | zero => trivial
  | succ depth ih =>
    have hnames : ∀ names : List String, (∀ n ∈ names, n ∈ arranged t l) →
        (sketchOfNames t depth l names).IsSlashFree := by
      intro names hnames
      induction names with
      | nil => trivial
      | cons name rest ihrest =>
        have hname := (mem_drawnNames_iff.mp (mem_arranged_iff.mp (hnames name (by simp)))).1
        obtain ⟨e, he⟩ := Option.isSome_iff_exists.mp hname
        have hslash := (ht.isEntryName he name (by simp)).no_slash
        exact ⟨hslash, ih _, ihrest fun n hn => hnames n (List.mem_cons_of_mem _ hn)⟩
    exact hnames _ fun _ hn => hn

/-! ## Its entries -/

/-- The entries of a sketch are those that the names lead to, and those in them. -/
lemma mem_entries_sketchOfNames {entry : List String × Bool} :
    entry ∈ (sketchOfNames t depth l names).entries ↔ ∃ n ∈ names,
      entry = ([n], isDirectoryAt t (l ++ [n])) ∨
        ∃ below ∈ (sketchOf t depth (l ++ [n])).entries, entry = (n :: below.1, below.2) := by
  induction names with
  | nil => simp [Sketch.entries]
  | cons name rest ih =>
    rw [sketchOfNames_cons, Sketch.entries, List.mem_cons, List.mem_append, List.mem_map, ih,
      List.exists_mem_cons_iff, or_assoc]
    simp only [eq_comm (a := entry)]

/-- The entries of the sketch of a directory are those that are visible. -/
lemma mem_entries_sketchOf (ht : t.WellFormed) {isDirectory : Bool} :
    (names, isDirectory) ∈ (sketchOf t depth l).entries ↔
      IsVisible t l depth names ∧ isDirectory = isDirectoryAt t (l ++ names) := by
  induction depth generalizing l names with
  | zero => simp [sketchOf, Sketch.entries, not_isVisible_zero]
  | succ depth ih =>
    rw [sketchOf_succ, mem_entries_sketchOfNames]
    constructor
    · rintro ⟨n, hn, heq | ⟨⟨below, kind⟩, hbelow, heq⟩⟩
      · obtain ⟨rfl, rfl⟩ := Prod.mk.inj heq
        exact ⟨isVisible_singleton_iff.mpr (mem_arranged_iff.mp hn), rfl⟩
      · obtain ⟨rfl, rfl⟩ := Prod.mk.inj heq
        obtain ⟨hvisible, hkind⟩ := ih.mp hbelow
        refine ⟨(isVisible_cons_iff ht hvisible.ne_nil).mpr ⟨mem_arranged_iff.mp hn, hvisible⟩, ?_⟩
        simpa using hkind
    · rintro ⟨hvisible, rfl⟩
      obtain ⟨n, more, rfl⟩ := List.exists_cons_of_ne_nil hvisible.ne_nil
      by_cases hmore : more = []
      · subst hmore
        exact ⟨n, mem_arranged_iff.mpr (isVisible_singleton_iff.mp hvisible), .inl rfl⟩
      · obtain ⟨hn, hbelow⟩ := (isVisible_cons_iff ht hmore).mp hvisible
        have hmem : (more, isDirectoryAt t (l ++ n :: more)) ∈
            (sketchOf t depth (l ++ [n])).entries := ih.mpr ⟨hbelow, by simp⟩
        exact ⟨n, mem_arranged_iff.mpr hn, .inr ⟨_, hmem, rfl⟩⟩

/-- The entries come in their order. -/
lemma pairwise_entries_sketchOf (ht : t.WellFormed) (depth : Nat) (l : Location) :
    (sketchOf t depth l).entries.Pairwise fun a b => ComesFirst t l a.1 b.1 := by
  induction depth generalizing l with
  | zero => exact .nil
  | succ depth ih =>
    have hnames : ∀ names : List String, names.Pairwise (StandsAbove t l) →
        (sketchOfNames t depth l names).entries.Pairwise fun a b => ComesFirst t l a.1 b.1 := by
      intro names hordered
      induction names with
      | nil => exact .nil
      | cons name rest ihrest =>
        obtain ⟨hfirst, hrest⟩ := List.pairwise_cons.mp hordered
        -- what the name leads to comes before what the names after it lead to
        have hothers : ∀ entry ∈ (sketchOfNames t depth l rest).entries, ∀ more,
            ComesFirst t l (name :: more) entry.1 := by
          intro entry hentry more
          obtain ⟨n, hn, rfl | ⟨below, -, rfl⟩⟩ := mem_entries_sketchOfNames.mp hentry
          · exact .beside (hfirst n hn)
          · exact .beside (hfirst n hn)
        rw [sketchOfNames_cons, Sketch.entries, List.pairwise_cons, List.pairwise_append,
          List.pairwise_map]
        refine ⟨?_, ?_, ihrest hrest, ?_⟩
        · intro entry hentry
          rcases List.mem_append.mp hentry with hentry | hentry
          · obtain ⟨below, hbelow, rfl⟩ := List.mem_map.mp hentry
            exact .inside ((mem_entries_sketchOf ht).mp hbelow).1.ne_nil
          · exact hothers entry hentry []
        · exact (ih (l ++ [name])).imp fun h => .within h
        · intro inner hinner entry hentry
          obtain ⟨below, -, rfl⟩ := List.mem_map.mp hinner
          exact hothers entry hentry below.1
    exact hnames _ (pairwise_arranged ht l)

/-- The lines of the sketch of a directory are those of its entries. -/
lemma lines_sketchOf (ht : t.WellFormed) (depth : Nat) (l : Location) (margin : String) :
    (sketchOf t depth l).lines margin =
      (sketchOf t depth l).entries.map fun entry => margin ++ lineOf t l entry.1 := by
  induction depth generalizing l margin with
  | zero => rfl
  | succ depth ih =>
    have hnames : ∀ before names : List String, arranged t l = before ++ names →
        (sketchOfNames t depth l names).lines margin =
          (sketchOfNames t depth l names).entries.map fun entry => margin ++ lineOf t l entry.1 := by
      intro before names hsplit
      induction names generalizing before with
      | nil => rfl
      | cons name rest ihrest =>
        have hlast : (sketchOfNames t depth l rest).isNil = isLastIn t l name := by
          rw [isNil_sketchOfNames, isLastIn_eq ht hsplit]
        have hrest := ihrest (before ++ [name]) (by simpa using hsplit)
        have hbelow : (sketchOf t depth (l ++ [name])).lines
              (innerMargin margin (isLastIn t l name)) =
            (sketchOf t depth (l ++ [name])).entries.map fun entry =>
              margin ++ lineOf t l (name :: entry.1) := by
          rw [ih]
          refine List.map_congr_left ?_
          intro entry hentry
          rw [lineOf_cons ((mem_entries_sketchOf ht).mp hentry).1.ne_nil, innerMargin,
            String.append_assoc]
        rw [sketchOfNames_cons, Sketch.lines, Sketch.entries, hlast, hrest, hbelow, List.map_cons,
          List.map_append, List.map_map, lineOf, line, String.append_assoc]
        rfl
    exact hnames [] _ rfl

end DirectoryNotes.Drawing
