import DirectoryNotes.Proofs.Plan
import DirectoryNotes.Proofs.Plan.Target

/-!
# The directories of changes

The root of a project may be written over links, and a changed path below it may start with the root
as it is written or with the resolved root. Either way one and the same path is left of it, and that
path alone decides which directory the change affects:

* `IsLeft`, `changedFromRoot?_eq_some_iff`: what is left of a changed path;
* `Affects`: what has to hold of it, and the directory;
* `affectedDirectories_law`: the directories of a list of changes.
-/

namespace DirectoryNotes

open FileTree

/-! ## Sets -/

/-- A set has a path if it has one of the same parts. -/
def PathSet.Holds (set : PathSet) (d : Path) : Prop := ∃ q ∈ set, q.parts = d.parts

lemma PathSet.holds_ofList_iff {paths : List Path} {d : Path} :
    (PathSet.ofList paths).Holds d ↔ ∃ p ∈ paths, p.parts = d.parts := by
  constructor
  · rintro ⟨q, hq, hparts⟩
    exact ⟨q, mem_of_mem_ofList hq, hparts⟩
  · rintro ⟨p, hp, hparts⟩
    obtain ⟨q, hq, heq⟩ := exists_mem_ofList hp
    exact ⟨q, hq, heq.trans hparts⟩

/-! ## What is left of a changed path -/

/-- Of a path `rest` is left below the root, as the root is written or as it resolves. -/
def IsLeft (root top path rest : Path) : Prop :=
  path.relativeTo? root = some rest ∨ path.relativeTo? top = some rest

/-- Two changed paths are the same but for how the root is written in front. -/
def Respelled (root top path other : Path) : Prop :=
  path = other ∨ ∃ rest, IsLeft root top path rest ∧ IsLeft root top other rest

/-- A change at a path below the root affects a directory: nothing on the path is hidden or leads
upward, the filter includes the path and the one above it, and the directory is there. -/
structure Affects (t : FileTree) (root : Path) (filter : IgnoreFilter) (rest d : Path) : Prop where
  visible : ∀ part ∈ rest.parts, ∃ name, part = .name name ∧ FileName.isHidden name = false
  file : filter.includes rest false = true
  above : filter.includes (rest.parent?.getD ⟨""⟩) true = true
  eq : d = if (rest.parent?.getD ⟨""⟩).isEmpty then root else root.join (rest.parent?.getD ⟨""⟩)
  directory : t.isDirectory d = true

variable {t : FileTree} {root top path rest d : Path} {l : Location} {filter : IgnoreFilter}
  {names : List String}

lemma relativeTo?_congr {p base other : Path} (h : base.parts = other.parts) :
    p.relativeTo? base = p.relativeTo? other := by
  unfold Path.relativeTo?
  rw [h]

/-- A segment stands for a step upward or for a name, if for anything. -/
lemma up_or_name_of_segment {segment : List Char} {part : PathPart}
    (h : PathPart.ofSegment? segment = some part) : part = .up ∨ ∃ name, part = .name name := by
  unfold PathPart.ofSegment? at h
  split at h
  · cases h
  · split at h
    · exact .inl (Option.some.inj h).symm
    · exact .inr ⟨_, (Option.some.inj h).symm⟩

/-- A path that is left of another shows nothing hidden exactly if all its parts are visible names. -/
lemma hasHiddenPart_eq_false_iff (hbase : root.text ≠ "") (h : path.relativeTo? root = some rest) :
    hasHiddenPart rest = false ↔
      ∀ part ∈ rest.parts, ∃ name, part = .name name ∧ FileName.isHidden name = false := by
  obtain ⟨segments, htight, rfl⟩ := Path.exists_isTight_of_relativeTo? hbase h
  rw [hasHiddenPart, Path.parts_ofOpened_plain htight, List.any_eq_false]
  refine forall₂_congr fun part hpart => ?_
  obtain ⟨segment, -, hsegment⟩ := List.mem_filterMap.mp hpart
  rcases up_or_name_of_segment hsegment with rfl | ⟨name, rfl⟩
  · simp
  · simp

section
variable (ht : t.WellFormed) (hroot : t.isDirectory root = true)
  (hnames : root.parts = .root :: names.map .name) (htop : t.realPath root = .ok top)
  (habove : top.parts <+: root.parts → top.parts = root.parts)
include ht hroot hnames htop habove

/-- Where a path lies below the root as it is written and as it resolves, both have the same parts. -/
lemma parts_eq_of_both (hwritten : root.parts <+: path.parts) (hresolved : top.parts <+: path.parts) :
    root.parts = top.parts := by
  rcases List.prefix_or_prefix_of_prefix hwritten hresolved with hfirst | hfirst
  · -- the written root is on the way to the resolved one, where there are no links
    obtain ⟨l, hl⟩ := isDirectory_iff.mp hroot
    obtain ⟨hresolves, rfl⟩ := resolvesTo_of_realPath htop hl
    have hplain : ∀ n ∈ l, IsPlainName n := fun n hmem =>
      (ht.isEntryName hresolves.entry n hmem).toIsPlainName
    rw [hnames, parts_pathOf hplain, List.cons_prefix_cons] at hfirst
    obtain ⟨more, rfl⟩ :=
      (List.prefix_map_iff_of_injective fun _ _ heq => PathPart.name.inj heq).mp hfirst.2
    have hway : ∀ front, front <+: names → ∀ target, t.entryAt? front ≠ some (.link target) := by
      rintro front ⟨rest, rfl⟩ target
      have hdir : t.entryAt? (front ++ (rest ++ more)) = some .directory := by
        rw [← List.append_assoc]
        exact hresolves.entry
      by_cases hlast : rest ++ more = []
      · rw [hlast, List.append_nil] at hdir
        simp [hdir]
      · simp [ht.above hlast hdir]
    rw [hnames, parts_pathOf hplain, location_of_parts (leadsInto_of_find hl) hnames hway]
  · exact (habove hfirst).symm

/-- One path at most is left of a changed path, and it is what is compared with the filter. -/
theorem changedFromRoot?_eq_some_iff :
    changedFromRoot? t root path = some rest ↔ IsLeft root top path rest := by
  obtain ⟨l, hl⟩ := isDirectory_iff.mp hroot
  obtain ⟨-, rfl⟩ := resolvesTo_of_realPath htop hl
  have hwritten := text_ne_empty_of_find hl
  have hresolved := text_ne_empty_of_realPath htop
  unfold changedFromRoot? IsLeft
  rw [htop]
  cases hleft : path.relativeTo? root with
  | none => simp
  | some other =>
    simp only [Option.some.injEq]
    refine ⟨.inl, ?_⟩
    rintro (heq | heq)
    · exact heq
    · have hparts := parts_eq_of_both ht hroot hnames htop habove
        ((Path.exists_relativeTo?_iff hwritten).mp ⟨_, hleft⟩)
        ((Path.exists_relativeTo?_iff hresolved).mp ⟨_, heq⟩)
      rw [relativeTo?_congr hparts, heq] at hleft
      exact (Option.some.inj hleft).symm

/-- Which directory a change affects, if any. -/
theorem affectedDirectory?_eq_some_iff : affectedDirectory? t root filter path = some d ↔
    ∃ rest, IsLeft root top path rest ∧ Affects t root filter rest d := by
  obtain ⟨l, hl⟩ := isDirectory_iff.mp hroot
  have hwritten := text_ne_empty_of_find hl
  have hresolved := text_ne_empty_of_realPath htop
  have hvisible : ∀ rest, IsLeft root top path rest → (hasHiddenPart rest = false ↔
      ∀ part ∈ rest.parts, ∃ name, part = .name name ∧ FileName.isHidden name = false) := by
    rintro rest (hrest | hrest)
    · exact hasHiddenPart_eq_false_iff hwritten hrest
    · exact hasHiddenPart_eq_false_iff hresolved hrest
  unfold affectedDirectory?
  simp only [bind, Option.bind_eq_some_iff, Option.ite_none_right_eq_some, Option.some.injEq,
    Bool.and_eq_true, Bool.not_eq_true', changedFromRoot?_eq_some_iff ht hroot hnames htop habove]
  constructor
  · rintro ⟨rest, hleft, ⟨⟨⟨hshown, hfile⟩, habove⟩, hdirectory⟩, rfl⟩
    exact ⟨rest, hleft, (hvisible rest hleft).mp hshown, hfile, habove, rfl, hdirectory⟩
  · rintro ⟨rest, hleft, h⟩
    obtain rfl := h.eq
    exact ⟨rest, hleft, ⟨⟨⟨(hvisible rest hleft).mpr h.visible, h.file⟩, h.above⟩, h.directory⟩, rfl⟩

/-- A respelled path affects the same directory. -/
lemma affectedDirectory?_respelled {other : Path} (h : Respelled root top path other) :
    affectedDirectory? t root filter path = affectedDirectory? t root filter other := by
  rcases h with rfl | ⟨rest, hpath, hother⟩
  · rfl
  · have hiff : ∀ p, changedFromRoot? t root p = some rest ↔ IsLeft root top p rest :=
      fun p => changedFromRoot?_eq_some_iff ht hroot hnames htop habove
    unfold affectedDirectory?
    rw [(hiff path).mpr hpath, (hiff other).mpr hother]

end

/-- What is left of a path that is joined to the root is left too where the resolved root takes its
place. -/
lemma respelled_join (hroot : root.text ≠ "") (htop : top.text ≠ "") {relative : Path}
    (h : relative.isAbsolute = false) : Respelled root top (root.join relative) (top.join relative) :=
  .inr ⟨_, .inl (Path.relativeTo?_join hroot h), .inr (Path.relativeTo?_join htop h)⟩

/-- The directories of a list of changes are those that one of the changes affects. So the directories
of two lists are those of either, the order of the changes does not matter and neither does how often
one is in the list, and no directory comes or goes when the root is written differently in front of
some of them. -/
theorem affectedDirectories_law (ht : t.WellFormed) (hroot : t.isDirectory root = true)
    (hnames : root.parts = .root :: names.map .name) (htop : t.realPath root = .ok top)
    (habove : top.parts <+: root.parts → top.parts = root.parts) (filter : IgnoreFilter) :
    (∀ paths d, (affectedDirectories t root filter paths).Holds d ↔
        ∃ path ∈ paths, ∃ rest d', IsLeft root top path rest ∧ Affects t root filter rest d' ∧
          d'.parts = d.parts) ∧
      (∀ paths more d, (affectedDirectories t root filter (paths ++ more)).Holds d ↔
        (affectedDirectories t root filter paths).Holds d ∨
          (affectedDirectories t root filter more).Holds d) ∧
      (∀ paths others, (∀ path, path ∈ paths ↔ path ∈ others) → ∀ d,
        (affectedDirectories t root filter paths).Holds d ↔
          (affectedDirectories t root filter others).Holds d) ∧
      (∀ paths others, List.Forall₂ (Respelled root top) paths others →
        affectedDirectories t root filter paths = affectedDirectories t root filter others) ∧
      ∀ relative : Path, relative.isAbsolute = false →
        Respelled root top (root.join relative) (top.join relative) := by
  have hlaw : ∀ paths d, (affectedDirectories t root filter paths).Holds d ↔
      ∃ path ∈ paths, ∃ rest d', IsLeft root top path rest ∧ Affects t root filter rest d' ∧
        d'.parts = d.parts := by
    intro paths d
    rw [affectedDirectories, PathSet.holds_ofList_iff]
    simp only [List.mem_filterMap, affectedDirectory?_eq_some_iff ht hroot hnames htop habove]
    constructor
    · rintro ⟨d', ⟨path, hpath, rest, hleft, haffects⟩, hparts⟩
      exact ⟨path, hpath, rest, d', hleft, haffects, hparts⟩
    · rintro ⟨path, hpath, rest, d', hleft, haffects, hparts⟩
      exact ⟨d', ⟨path, hpath, rest, hleft, haffects⟩, hparts⟩
  refine ⟨hlaw, ?_, ?_, ?_, ?_⟩
  · intro paths more d
    simp only [hlaw, List.mem_append, or_and_right, exists_or]
  · intro paths others hsame d
    simp only [hlaw, hsame]
  · intro paths others hspelled
    have hall : paths.filterMap (affectedDirectory? t root filter) =
        others.filterMap (affectedDirectory? t root filter) := by
      induction hspelled with
      | nil => rfl
      | cons hfirst _ ih =>
        rw [List.filterMap_cons, List.filterMap_cons, ih,
          affectedDirectory?_respelled ht hroot hnames htop habove hfirst]
    rw [affectedDirectories, affectedDirectories, hall]
  · obtain ⟨l, hl⟩ := isDirectory_iff.mp hroot
    exact fun _ => respelled_join (text_ne_empty_of_find hl) (text_ne_empty_of_realPath htop)

/-- A change that is written with the resolved root affects the directory below the link. -/
theorem affectedDirectories_linkedProject :
    linkedProject.WellFormed ∧ linkedProject.isDirectory ⟨"/p"⟩ = true ∧
      (⟨"/p"⟩ : Path).parts = .root :: ["p"].map .name ∧
      linkedProject.realPath ⟨"/p"⟩ = .ok ⟨"/home"⟩ ∧
      ((⟨"/home"⟩ : Path).parts <+: (⟨"/p"⟩ : Path).parts →
        (⟨"/home"⟩ : Path).parts = (⟨"/p"⟩ : Path).parts) ∧
      (affectedDirectories linkedProject ⟨"/p"⟩ (.everything ⟨"/p"⟩) [⟨"/home/src/a.ts"⟩]).Holds
        ⟨"/p/src"⟩ ∧
      affectedDirectories linkedProject ⟨"/p"⟩ (.everything ⟨"/p"⟩) [⟨"/home/src/a.ts"⟩] =
        affectedDirectories linkedProject ⟨"/p"⟩ (.everything ⟨"/p"⟩) [⟨"/p/src/a.ts"⟩] := by
  have hroot : linkedProject.isDirectory ⟨"/p"⟩ = true :=
    isDirectory_iff.mpr ⟨_, find_linkedProject⟩
  have hnames : (⟨"/p"⟩ : Path).parts = .root :: ["p"].map .name := by decide
  have habove : (⟨"/home"⟩ : Path).parts <+: (⟨"/p"⟩ : Path).parts →
      (⟨"/home"⟩ : Path).parts = (⟨"/p"⟩ : Path).parts := by decide
  obtain ⟨hlaw, -, -, hspelled, hjoined⟩ := affectedDirectories_law wellFormed_linkedProject hroot
    hnames realPath_linkedProject habove (.everything ⟨"/p"⟩)
  have haffects : Affects linkedProject ⟨"/p"⟩ (.everything ⟨"/p"⟩) ⟨"src/a.ts"⟩ ⟨"/p/src"⟩ := by
    constructor
    case visible =>
      have hparts : (⟨"src/a.ts"⟩ : Path).parts = [.name "src", .name "a.ts"] := by decide
      rw [hparts]
      simp only [List.mem_cons, List.not_mem_nil, or_false]
      rintro part (rfl | rfl)
      · exact ⟨"src", rfl, by decide⟩
      · exact ⟨"a.ts", rfl, by decide⟩
    case file => decide
    case above => decide
    case eq => decide
    case directory =>
      have hsrc : linkedProject.entryAt? ["home", "src"] = some .directory := rfl
      have hpath : (⟨"/p/src"⟩ : Path) = (⟨"/p"⟩ : Path).join ⟨"src"⟩ := by decide
      have hplain : IsPlainName "src" := by decide
      have hlink : ∀ target, linkedProject.entryAt? (["home"] ++ ["src"]) ≠ some (.link target) := by
        simp [hsrc]
      rw [hpath, isDirectory_iff]
      exact ⟨_, (find_join_iff find_linkedProject hplain hlink).mpr ⟨by decide, by decide, rfl, hsrc⟩⟩
  have hleft : IsLeft ⟨"/p"⟩ ⟨"/home"⟩ ⟨"/home/src/a.ts"⟩ ⟨"src/a.ts"⟩ :=
    .inr (by decide)
  have hjoin : Respelled ⟨"/p"⟩ ⟨"/home"⟩ ⟨"/p/src/a.ts"⟩ ⟨"/home/src/a.ts"⟩ := by
    have hwritten : (⟨"/p"⟩ : Path).join ⟨"src/a.ts"⟩ = ⟨"/p/src/a.ts"⟩ := by decide
    have hresolved : (⟨"/home"⟩ : Path).join ⟨"src/a.ts"⟩ = ⟨"/home/src/a.ts"⟩ := by decide
    rw [← hwritten, ← hresolved]
    exact hjoined ⟨"src/a.ts"⟩ (by decide)
  refine ⟨wellFormed_linkedProject, hroot, hnames, realPath_linkedProject, habove, ?_, ?_⟩
  · exact (hlaw _ _).mpr ⟨_, List.mem_singleton_self _, _, _, hleft, haffects, rfl⟩
  · exact (hspelled _ _ (.cons hjoin .nil)).symm

end DirectoryNotes
