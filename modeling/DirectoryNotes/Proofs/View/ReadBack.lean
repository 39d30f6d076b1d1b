import DirectoryNotes.Proofs.View.Listings

/-!
# Drawings read back

In a project without links every directory is met once, so a drawing has all that is visible:

* `Draws.eq_sketchOf`: what is drawn is what there is to be drawn;
* `renderTree_read_back`: the lines of a drawing, and that two drawings are the same only if they show
  the same.
-/

namespace DirectoryNotes.Drawing

open FileTree Text

variable {t : FileTree} {root : Path} {l : Location} {depth : Nat} {names : List String}
  {name : String}

/-! ## The entries of a directory -/

/-- An entry of a project as it is drawn. -/
def itemOf (t : FileTree) (root : Path) (l : Location) (names : List String) (name : String) : Item :=
  ⟨name, root.follow (names ++ [name]), isDirectoryAt t (l ++ names ++ [name])⟩

/-- The entries of a directory are drawn as they are arranged. -/
lemma items_follow (ht : t.IsProject root l)
    (hnames : t.find (root.follow names) = .ok (l ++ names, .directory))
    (hshort : ∀ n ∈ drawnNames t (l ++ names), isDirectoryAt t (l ++ names ++ [n]) = true →
      (root.follow (names ++ [n])).text.utf8ByteSize ≤ pathLimit) :
    items t (root.follow names) = (arranged t (l ++ names)).map (itemOf t root l names) := by
  have hkind : ∀ n ∈ drawnNames t (l ++ names),
      t.isDirectory (root.follow (names ++ [n])) = isDirectoryAt t (l ++ names ++ [n]) := by
    intro n hn
    obtain ⟨e, he⟩ := Option.isSome_iff_exists.mp (mem_drawnNames_iff.mp hn).1
    have hplain : ∀ m ∈ names ++ [n], IsPlainName m := fun m hm =>
      isPlainName_of_entry ht.wellFormed he m (by
        rw [List.append_assoc]
        exact List.mem_append_right _ hm)
    rw [Bool.eq_iff_iff, isDirectory_iff, isDirectoryAt_iff, List.append_assoc]
    constructor
    · rintro ⟨k, hk⟩
      exact ((find_follow_iff ht hplain).mp hk).2.1
    · intro hdir
      have hsize := hshort n hn (by rw [isDirectoryAt_iff, List.append_assoc, hdir])
      exact ⟨_, (find_follow_iff ht hplain).mpr ⟨rfl, hdir, hsize⟩⟩
  unfold items arranged
  rw [listDirectory_of_find hnames, List.map_mergeSort (s := comesBefore)]
  · have hmap : ∀ n ∈ drawnNames t (l ++ names),
        Item.mk n ((root.follow names).join ⟨n⟩) (t.isDirectory ((root.follow names).join ⟨n⟩)) =
          itemOf t root l names n := by
      intro n hn
      rw [itemOf, ← hkind n hn, Path.follow_concat]
    exact congrArg (List.mergeSort · comesBefore) (List.map_congr_left hmap)
  · intro m _ n _
    rfl

/-! ## What is drawn -/

/-- The marks of a directory that names lead to, and of those below it. -/
def IsMarkIn (t : FileTree) (root : Path) (l : Location) (names : List String)
    (k : List PathPart) : Prop :=
  ∃ more, t.find (root.follow (names ++ more)) = .ok (l ++ (names ++ more), .directory) ∧
    k = t.mark (root.follow (names ++ more))

section
variable {k : List PathPart} (ht : t.IsProject root l)

lemma isMarkIn_self (h : t.find (root.follow names) = .ok (l ++ names, .directory)) :
    IsMarkIn t root l names (t.mark (root.follow names)) :=
  ⟨[], by rw [List.append_nil]; exact h, by rw [List.append_nil]⟩

lemma IsMarkIn.above (h : IsMarkIn t root l (names ++ [name]) k) : IsMarkIn t root l names k := by
  obtain ⟨more, hmore, rfl⟩ := h
  refine ⟨name :: more, ?_, ?_⟩
  · simpa using hmore
  · simp

include ht

/-- A mark belongs to one directory. -/
lemma IsMarkIn.mark_ne (h : IsMarkIn t root l (names ++ [name]) k)
    (hnames : t.find (root.follow names) = .ok (l ++ names, .directory)) :
    k ≠ t.mark (root.follow names) := by
  obtain ⟨more, hmore, rfl⟩ := h
  intro heq
  have hsame := mark_inj ht (find_eq_ok_iff.mp hmore).2 (find_eq_ok_iff.mp hnames).2 heq
  simp at hsame

lemma IsMarkIn.name_eq {other : String} (h : IsMarkIn t root l (names ++ [name]) k)
    (h' : IsMarkIn t root l (names ++ [other]) k) : name = other := by
  obtain ⟨more, hmore, rfl⟩ := h
  obtain ⟨more', hmore', heq⟩ := h'
  have hsame := mark_inj ht (find_eq_ok_iff.mp hmore).2 (find_eq_ok_iff.mp hmore').2 heq
  simp only [List.append_assoc, List.append_right_inj, List.singleton_append,
    List.cons.injEq] at hsame
  exact hsame.1

/-- A mark below the entries of a directory is new to the entries after them. -/
lemma IsMarkIn.not_beside {other : String} (h : IsMarkIn t root l (names ++ [name]) k)
    (hne : name ≠ other) : ¬IsMarkIn t root l (names ++ [other]) k :=
  fun hother => hne (h.name_eq ht hother)

end

section
variable {limit : Nat} (ht : t.IsProject root l)
  (hshort : ∀ names, IsVisible t l limit names → t.entryAt? (l ++ names) = some .directory →
    (root.follow names).text.utf8ByteSize ≤ pathLimit)
include ht hshort

/-- The names that lead to a directory that is visible lead to it. -/
lemma find_follow_of_isVisible (hvisible : IsVisible t l limit (names ++ [name]))
    (hkind : isDirectoryAt t (l ++ names ++ [name]) = true) :
    t.find (root.follow (names ++ [name])) = .ok (l ++ (names ++ [name]), .directory) := by
  rw [isDirectoryAt_iff, List.append_assoc] at hkind
  exact find_follow_of_entry ht.wellFormed ht.root hkind (by simp) (hshort _ hvisible hkind)

/-- The entries of a directory are drawn as they are arranged if they are visible. -/
lemma items_follow_of_isVisible
    (hnames : t.find (root.follow names) = .ok (l ++ names, .directory))
    (hvisible : ∀ n ∈ arranged t (l ++ names), IsVisible t l limit (names ++ [n])) :
    items t (root.follow names) = (arranged t (l ++ names)).map (itemOf t root l names) := by
  refine items_follow ht hnames fun n hn hkind => hshort _ (hvisible n (mem_arranged_iff.mpr hn)) ?_
  rwa [isDirectoryAt_iff, List.append_assoc] at hkind

/-- Nothing is drawn below an entry that is passed over: it is a file, or the drawing does not go
further down. -/
lemma sketchOf_eq_nil_of_passed {seen : List (List PathPart)}
    (hvisible : IsVisible t l limit (names ++ [name]))
    (hfresh : ∀ k ∈ seen, ¬IsMarkIn t root l (names ++ [name]) k)
    (hpass : ¬((itemOf t root l names name).isDirectory = true ∧ depth ≠ 0 ∧
      t.mark (itemOf t root l names name).path ∉ seen)) :
    sketchOf t depth (l ++ names ++ [name]) = .nil := by
  cases hkind : isDirectoryAt t (l ++ names ++ [name]) with
  | false => exact sketchOf_of_not_directory ht.wellFormed hkind depth
  | true =>
    cases depth with
    | zero => rfl
    | succ depth =>
      have hfind := find_follow_of_isVisible ht hshort hvisible hkind
      exact absurd ⟨hkind, by simp, fun hmem => hfresh _ hmem (isMarkIn_self hfind)⟩ hpass

/-- What is drawn of the entries of a directory in a project is what there is to be drawn, if the
paths are short enough and none of the directories is marked. The marks that are put are theirs. -/
theorem Draws.eq_sketchOf
    {remaining : List Item} {seen after : List (List PathPart)} {f : Sketch}
    (h : Draws t depth remaining seen f after) {names ns : List String}
    (hitems : remaining = ns.map (itemOf t root l names)) (hns : ns.Nodup)
    (hvisible : ∀ n ∈ ns, IsVisible t l limit (names ++ [n]))
    (hdepth : names.length + 1 + depth = limit)
    (hfresh : ∀ n ∈ ns, ∀ k ∈ seen, ¬IsMarkIn t root l (names ++ [n]) k) :
    f = sketchOfNames t depth (l ++ names) ns ∧
      ∀ k ∈ after, k ∈ seen ∨ ∃ n ∈ ns, IsMarkIn t root l (names ++ [n]) k := by
  induction h generalizing names ns with
  | nil depth seen =>
    obtain rfl : ns = [] := by simpa using hitems.symm
    exact ⟨rfl, fun k hk => .inl hk⟩
  | @pass depth item remaining seen after rest hpass hdraws ih =>
    cases ns with
    | nil => cases hitems
    | cons n ns =>
      obtain ⟨rfl, rfl⟩ := List.cons.inj hitems
      have hrest := ih rfl (List.nodup_cons.mp hns).2
        (fun m hm => hvisible m (List.mem_cons_of_mem _ hm)) hdepth
        fun m hm => hfresh m (List.mem_cons_of_mem _ hm)
      have hinner := sketchOf_eq_nil_of_passed ht hshort (hvisible n List.mem_cons_self)
        (hfresh n List.mem_cons_self) hpass
      refine ⟨?_, ?_⟩
      · rw [sketchOfNames_cons, hinner, ← hrest.1]
        rfl
      · intro k hk
        refine (hrest.2 k hk).imp_right ?_
        exact fun ⟨m, hm, hmark⟩ => ⟨m, List.mem_cons_of_mem _ hm, hmark⟩
  | @enter depth item remaining seen between after inner rest hdirectory hnew hinner hdraws
      ihinner ihrest =>
    cases ns with
    | nil => cases hitems
    | cons n ns =>
      obtain ⟨rfl, rfl⟩ := List.cons.inj hitems
      obtain ⟨hn, hns'⟩ := List.nodup_cons.mp hns
      have hvisiblen := hvisible n List.mem_cons_self
      have hfind := find_follow_of_isVisible ht hshort hvisiblen hdirectory
      have hlength : (names ++ [n]).length + 1 + depth = limit := by
        simp only [List.length_append, List.length_singleton]
        omega
      have hbelow : ∀ m ∈ arranged t (l ++ (names ++ [n])),
          IsVisible t l limit (names ++ [n] ++ [m]) := fun m hm =>
        hvisiblen.concat (hlength ▸ Nat.le_add_right _ _) (mem_arranged_iff.mp hm)
      -- below the directory nothing is marked, and it is none of the directories below itself
      have hinner' := ihinner (items_follow_of_isVisible ht hshort hfind hbelow)
        (nodup_arranged ht.wellFormed _) hbelow hlength (by
          intro m _ k hk hmark
          rcases List.mem_cons.mp hk with rfl | hk
          · exact hmark.mark_ne ht hfind rfl
          · exact hfresh n List.mem_cons_self k hk hmark.above)
      have hmarked : ∀ k ∈ between, k ∈ seen ∨ IsMarkIn t root l (names ++ [n]) k := by
        intro k hk
        rcases hinner'.2 k hk with hk | ⟨other, -, hother⟩
        · rcases List.mem_cons.mp hk with rfl | hk
          · exact .inr (isMarkIn_self hfind)
          · exact .inl hk
        · exact .inr hother.above
      -- what was marked below the directory is not below the entries after it
      have hrest := ihrest rfl hns' (fun m hm => hvisible m (List.mem_cons_of_mem _ hm)) hdepth (by
        intro m hm k hk
        rcases hmarked k hk with hk | hmark
        · exact hfresh m (List.mem_cons_of_mem _ hm) k hk
        · exact hmark.not_beside ht fun heq => hn (heq ▸ hm))
      refine ⟨?_, ?_⟩
      · have hbelow : sketchOf t (depth + 1) (l ++ names ++ [n]) = inner := by
          rw [sketchOf_succ, List.append_assoc, hinner'.1]
        rw [sketchOfNames_cons, hbelow, ← hrest.1]
        rfl
      · intro k hk
        rcases hrest.2 k hk with hk | ⟨m, hm, hmark⟩
        · exact (hmarked k hk).imp_right fun hmark => ⟨n, List.mem_cons_self, hmark⟩
        · exact .inr ⟨m, List.mem_cons_of_mem _ hm, hmark⟩

end

/-! ## A drawing of a project -/

/-- A project whose drawing down to a depth shows each visible entry as it is. The paths of visible
directories are short enough to be looked at, and no name breaks a line. -/
structure IsDrawable (t : FileTree) (root : Path) (l : Location) (depth : Nat) : Prop where
  project : t.IsProject root l
  short : ∀ names, IsVisible t l depth names → t.entryAt? (l ++ names) = some .directory →
    (root.follow names).text.utf8ByteSize ≤ pathLimit
  no_lineFeed : ∀ names, IsVisible t l depth names → ∀ n ∈ names, '\n' ∉ n.toList
  root_no_lineFeed : '\n' ∉ root.displayName.toList

/-- The drawing of a project is the line of its root and what there is to be drawn. -/
theorem drawTree_eq (ht : t.IsProject root l)
    (hshort : ∀ names, IsVisible t l depth names → t.entryAt? (l ++ names) = some .directory →
      (root.follow names).text.utf8ByteSize ≤ pathLimit) :
    drawTree t root depth = (root.displayName ++ "/") :: (sketchOf t depth l).lines "" := by
  cases depth with
  | zero => rw [drawTree_zero, sketchOf, Sketch.lines]
  | succ depth =>
    obtain ⟨f, after, hdraws, hlines⟩ := exists_drawTree_eq t root depth
    have hroot : t.find (root.follow []) = .ok (l ++ [], .directory) := by
      rw [List.append_nil]
      exact ht.root
    have hvisible : ∀ n ∈ arranged t l, IsVisible t l (depth + 1) ([] ++ [n]) :=
      fun n hn => isVisible_singleton_iff.mpr (mem_arranged_iff.mp hn)
    have hitems : items t root = (arranged t l).map (itemOf t root l []) := by
      have hfollow := items_follow_of_isVisible ht hshort hroot (by rwa [List.append_nil])
      rwa [List.append_nil] at hfollow
    -- the only mark before anything is drawn is that of the root
    have hfresh : ∀ n ∈ arranged t l, ∀ k ∈ firstMarks t root, ¬IsMarkIn t root l ([] ++ [n]) k := by
      intro n _ k hk hmark
      exact hmark.mark_ne ht hroot (eq_mark_of_mem_firstMarks hk)
    have hsketch := (hdraws.eq_sketchOf ht hshort hitems (nodup_arranged ht.wellFormed l) hvisible
      (by rw [List.length_nil, Nat.zero_add, Nat.add_comm]) hfresh).1
    rw [hlines, hsketch, List.append_nil, ← sketchOf_succ]

/-- The entries whose lines a drawing has. -/
def drawnWays (t : FileTree) (l : Location) (depth : Nat) : List (List String) :=
  (sketchOf t depth l).entries.map (·.1)

lemma mem_drawnWays_iff (ht : t.WellFormed) :
    names ∈ drawnWays t l depth ↔ IsVisible t l depth names := by
  unfold drawnWays
  constructor
  · intro h
    obtain ⟨⟨_, kind⟩, hmem, rfl⟩ := List.mem_map.mp h
    exact ((mem_entries_sketchOf ht).mp hmem).1
  · intro h
    exact List.mem_map.mpr ⟨_, (mem_entries_sketchOf ht).mpr ⟨h, rfl⟩, rfl⟩

lemma pairwise_drawnWays (ht : t.WellFormed) (l : Location) (depth : Nat) :
    (drawnWays t l depth).Pairwise (ComesFirst t l) :=
  List.pairwise_map.mpr (pairwise_entries_sketchOf ht depth l)

lemma newline_notMem_lineOf (h : ∀ n ∈ names, '\n' ∉ n.toList) : '\n' ∉ (lineOf t l names).toList := by
  induction names generalizing l with
  | nil => simp [lineOf]
  | cons n rest ih =>
    by_cases hrest : rest = []
    · subst hrest
      simp [lineOf, newline_notMem_branch, newline_notMem_label (h n List.mem_cons_self)]
    · rw [lineOf_cons hrest]
      simp [newline_notMem_stem, ih fun m hm => h m (List.mem_cons_of_mem _ hm)]

namespace IsDrawable
variable (h : IsDrawable t root l depth)
include h

lemma drawTree_eq_ways :
    drawTree t root depth = (root.displayName ++ "/") :: (drawnWays t l depth).map (lineOf t l) := by
  rw [drawTree_eq h.project h.short, lines_sketchOf h.project.wellFormed, drawnWays, List.map_map]
  simp

lemma split_renderTree :
    Text.split '\n' (renderTree t root depth) = drawTree t root depth ++ [""] := by
  refine Text.split_rows fun row hrow => ?_
  rw [h.drawTree_eq_ways] at hrow
  rcases List.mem_cons.mp hrow with rfl | hrow
  · simp [h.root_no_lineFeed]
  · obtain ⟨names, hnames, rfl⟩ := List.mem_map.mp hrow
    have hvisible := (mem_drawnWays_iff h.project.wellFormed).mp hnames
    exact newline_notMem_lineOf (h.no_lineFeed names hvisible)

end IsDrawable

/-- A drawing has one line for the root and one for every visible entry, in the order in which
directories come before what is in them and before the files beside them. Two drawings that are the
same show the same entries, of the same kinds. -/
theorem renderTree_read_back (h : IsDrawable t root l depth) :
    Text.split '\n' (renderTree t root depth) = drawTree t root depth ++ [""] ∧
      (∃ ways : List (List String),
        drawTree t root depth = (root.displayName ++ "/") :: ways.map (lineOf t l) ∧
        ways.Nodup ∧ (∀ names, names ∈ ways ↔ IsVisible t l depth names) ∧
        ways.Pairwise (ComesFirst t l)) ∧
      ∀ (t' : FileTree) (root' : Path) (l' : Location) (depth' : Nat),
        IsDrawable t' root' l' depth' → renderTree t root depth = renderTree t' root' depth' →
        ∀ names, (IsVisible t l depth names ↔ IsVisible t' l' depth' names) ∧
          (IsVisible t l depth names →
            isDirectoryAt t (l ++ names) = isDirectoryAt t' (l' ++ names)) := by
  have ht := h.project.wellFormed
  have hordered := pairwise_drawnWays ht l depth
  refine ⟨h.split_renderTree, ⟨drawnWays t l depth, h.drawTree_eq_ways,
    hordered.imp ComesFirst.ne, fun names => mem_drawnWays_iff ht, hordered⟩, ?_⟩
  intro t' root' l' depth' h' hsame names
  have ht' := h'.project.wellFormed
  -- the texts have the same lines, so the sketches are the same
  have hlines : drawTree t root depth = drawTree t' root' depth' := by
    have hsplit := congrArg (Text.split '\n') hsame
    rw [h.split_renderTree, h'.split_renderTree] at hsplit
    exact List.append_cancel_right hsplit
  rw [drawTree_eq h.project h.short, drawTree_eq h'.project h'.short, List.cons.injEq] at hlines
  have hsketch := Sketch.lines_inj (isSlashFree_sketchOf ht depth l)
    (isSlashFree_sketchOf ht' depth' l') hlines.2
  have hentry : ∀ kind, IsVisible t l depth names ∧ kind = isDirectoryAt t (l ++ names) ↔
      IsVisible t' l' depth' names ∧ kind = isDirectoryAt t' (l' ++ names) := by
    intro kind
    rw [← mem_entries_sketchOf ht, ← mem_entries_sketchOf ht', hsketch]
  refine ⟨⟨fun hvisible => ((hentry _).mp ⟨hvisible, rfl⟩).1,
    fun hvisible => ((hentry _).mpr ⟨hvisible, rfl⟩).1⟩, fun hvisible => ?_⟩
  exact ((hentry _).mp ⟨hvisible, rfl⟩).2

/-- Sources with a file beside them. -/
def smallProject : FileTree where
  entries := [(["src"], .directory), (["src", "lib.rs"], .file ⟨#[]⟩ 0), ([".git"], .directory),
    (["a.md"], .file ⟨#[]⟩ 0)]

lemma isDrawable_smallProject : IsDrawable smallProject ⟨"/"⟩ [] 2 where
  project := ⟨by decide, find_slash _, linkFreeBelow_of_entries (by decide) []⟩
  short := by
    intro names hvisible hdir
    have hmem := mem_of_entryAt? hvisible.ne_nil hdir
    have hshort : ∀ x ∈ smallProject.entries,
        ((⟨"/"⟩ : Path).follow x.1).text.utf8ByteSize ≤ pathLimit := by decide
    exact hshort _ hmem
  no_lineFeed := by
    intro names hvisible
    obtain ⟨e, he⟩ := Option.isSome_iff_exists.mp hvisible.entry
    have hmem := mem_of_entryAt? hvisible.ne_nil he
    have hnames : ∀ x ∈ smallProject.entries, ∀ n ∈ x.1, '\n' ∉ n.toList := by decide
    exact hnames _ hmem
  root_no_lineFeed := by decide

/-- The line of a file in a directory. -/
theorem mem_drawTree_smallProject : IsDrawable smallProject ⟨"/"⟩ [] 2 ∧
    IsVisible smallProject [] 2 ["src", "lib.rs"] ∧
      "│   └── lib.rs" ∈ drawTree smallProject ⟨"/"⟩ 2 := by
  have hvisible : IsVisible smallProject [] 2 ["src", "lib.rs"] :=
    ⟨by decide, by decide, by decide, rfl⟩
  refine ⟨isDrawable_smallProject, hvisible, ?_⟩
  obtain ⟨-, ⟨ways, hlines, -, hways, -⟩, -⟩ := renderTree_read_back isDrawable_smallProject
  have hline : lineOf smallProject [] ["src", "lib.rs"] = "│   └── lib.rs" := by decide +kernel
  rw [hlines, ← hline]
  exact List.mem_cons_of_mem _ (List.mem_map_of_mem ((hways _).mpr hvisible))

/-! ## Paths that are too long -/

/-- The root directory, written with a number of slashes. -/
def slashes (n : Nat) : Path := ⟨.ofList (List.replicate n '/')⟩

lemma slashes_succ (n : Nat) : slashes (n + 1) = withSlashes ⟨"/"⟩ n := by
  apply Path.ext_text
  rw [toList_withSlashes, slashes, String.toList_ofList, List.replicate_succ]
  rfl

lemma find_slashes {n : Nat} (hn : n + 1 ≤ pathLimit) (t : FileTree) :
    t.find (slashes (n + 1)) = .ok ([], .directory) := by
  have hslash : "/".utf8ByteSize = 1 := rfl
  rw [slashes_succ]
  exact find_withSlashes (find_slash t) (by rwa [hslash, Nat.add_comm])

/-- The longest path of the root directory is too long to be continued. -/
lemma isDirectory_join_slashes (t : FileTree) {name : String} (hname : IsPlainName name) :
    t.isDirectory ((slashes pathLimit).join ⟨name⟩) = false := by
  have hslash : "/".utf8ByteSize = 1 := rfl
  have hpos : 0 < name.utf8ByteSize :=
    Nat.pos_of_ne_zero (mt String.utf8ByteSize_eq_zero_iff.mp hname.ne_empty)
  rw [Bool.eq_false_iff, ne_eq, isDirectory_iff, pathLimit, slashes_succ]
  rintro ⟨k, hk⟩
  refine not_isAdmitted_join_withSlashes hname ?_ (isAdmitted_of_find hk)
  rw [hslash, pathLimit]
  omega

/-- Whatever stands at the only name in the root directory, it is drawn as a file there. -/
lemma drawTree_slashes {t : FileTree} {name : String} (hname : IsPlainName name)
    (hdrawn : isDrawn name = true) (hchildren : t.children [] = [name]) (depth : Nat) :
    drawTree t (slashes pathLimit) (depth + 1) =
      [(slashes pathLimit).displayName ++ "/", "└── " ++ name] := by
  obtain ⟨f, after, hdraws, hlines⟩ := exists_drawTree_eq t (slashes pathLimit) depth
  have hitems : items t (slashes pathLimit) =
      [⟨name, (slashes pathLimit).join ⟨name⟩, false⟩] := by
    have hroot : t.find (slashes pathLimit) = .ok ([], .directory) := find_slashes (Nat.le_refl _) t
    unfold items
    rw [listDirectory_of_find hroot, hchildren]
    simp [Except.toOption, hdrawn, isDirectory_join_slashes t hname]
  rw [hitems] at hdraws
  rw [hlines]
  cases hdraws with
  | pass _ hrest =>
    cases hrest
    simp [Sketch.lines, Sketch.isNil, line, branch, label]
  | enter hdirectory => cases hdirectory

/-- A directory that is drawn as a file. -/
def fullDirectory : FileTree where
  entries := [(["d"], .directory), (["d", "x"], .file ⟨#[]⟩ 0)]

/-- A file of the same name. -/
def bareFile : FileTree where
  entries := [(["d"], .file ⟨#[]⟩ 0)]

/-- A directory whose path is too long to be looked at is drawn like a file, without its entries. -/
theorem renderTree_fullDirectory :
    fullDirectory.IsProject (slashes pathLimit) [] ∧ bareFile.IsProject (slashes pathLimit) [] ∧
      (∀ x ∈ fullDirectory.entries ++ bareFile.entries, ∀ n ∈ x.1, '\n' ∉ n.toList) ∧
      renderTree fullDirectory (slashes pathLimit) 2 = renderTree bareFile (slashes pathLimit) 2 ∧
      IsVisible fullDirectory [] 2 ["d", "x"] ∧ ¬IsVisible bareFile [] 2 ["d", "x"] := by
  have hroot : ∀ t : FileTree, t.find (slashes pathLimit) = .ok ([], .directory) :=
    find_slashes (Nat.le_refl _)
  have hvisible : IsVisible fullDirectory [] 2 ["d", "x"] := ⟨by decide, by decide, by decide, rfl⟩
  refine ⟨⟨by decide, hroot _, linkFreeBelow_of_entries (by decide) []⟩,
    ⟨by decide, hroot _, linkFreeBelow_of_entries (by decide) []⟩, by decide, ?_, hvisible, ?_⟩
  · unfold renderTree
    have hname : IsPlainName "d" := by decide
    rw [drawTree_slashes hname (by decide) rfl, drawTree_slashes hname (by decide) rfl]
  · intro hvisible
    have hentry : bareFile.entryAt? ([] ++ ["d", "x"]) = none := rfl
    have hsome := hvisible.entry
    rw [hentry] at hsome
    cases hsome

end DirectoryNotes.Drawing
