import DirectoryNotes.Proofs.Document.Write
import DirectoryNotes.Proofs.FileTree.Naming
import DirectoryNotes.Proofs.FileTree.Unfollowed
import DirectoryNotes.View.Context
import Mathlib.Data.List.Forall2
import Mathlib.Data.List.Nodup
import Mathlib.Data.List.Perm.Subperm

/-!
# The documents of a project

The project view goes down the directories of a project and shows the first documents that it comes
by:

* `HoldsDocument`: the directories that have one. `mem_documented_iff` says that it comes by these;
* `documentDirectories_eq`: which of them are shown;
* `projectView_eq_ok_iff`: the view has a section for each, if their documents can be read;
* `pairwise_documented`: the order of the sections.
-/

namespace DirectoryNotes.View

open FileTree Text Drawing Document

variable {t : FileTree} {root : Path} {l : Location} {names more : List String} {name text : String}

/-! ## Directories with a document -/

/-- A directory as the project view comes by it: the path of the root without what counts for nothing
at its end, continued by names. -/
def placeOf (root : Path) (names : List String) : Path := (root.follow names).trimmed

/-- Names lead from the root, over directories that are not hidden and hold no installed packages, to
a directory with a document that is a file, and the path of the directory is short enough. -/
structure HoldsDocument (t : FileTree) (root : Path) (l : Location) (names : List String) : Prop where
  drawn : ∀ n ∈ names, isDrawn n = true
  document : ∃ bytes seconds, t.entryAt? (l ++ names ++ [fileName]) = some (.file bytes seconds)
  short : (placeOf root names).text.utf8ByteSize ≤ pathLimit

/-- The text of a document, if the file system takes its path. -/
def IsDocument (t : FileTree) (root : Path) (l : Location) (names : List String) (text : String) :
    Prop :=
  (pathIn (placeOf root names)).IsAdmitted ∧
    ∃ bytes seconds, t.entryAt? (l ++ names ++ [fileName]) = some (.file bytes seconds) ∧
      String.fromUTF8? bytes = some text

namespace HoldsDocument

lemma directory (h : HoldsDocument t root l names) (ht : t.WellFormed) :
    t.entryAt? (l ++ names) = some .directory := by
  obtain ⟨bytes, seconds, hentry⟩ := h.document
  exact ht.parent hentry

lemma isPlainName (h : HoldsDocument t root l names) (ht : t.WellFormed) :
    ∀ n ∈ names, IsPlainName n :=
  fun n hn => (ht.isEntryName (h.directory ht) n (List.mem_append_right _ hn)).toIsPlainName

/-- Its path leads to the directory. -/
lemma find_placeOf (h : HoldsDocument t root l names) (ht : t.WellFormed)
    (hroot : t.find root = .ok (l, .directory)) :
    t.find (placeOf root names) = .ok (l ++ names, .directory) := by
  by_cases hnames : names = []
  · subst hnames
    rw [List.append_nil]
    exact find_trimmed hroot
  · have hplace : placeOf root names = root.follow names :=
      Path.trimmed_follow root hnames (h.isPlainName ht)
    have hshort := h.short
    rw [hplace] at hshort ⊢
    exact find_follow_of_entry ht hroot (h.directory ht) (by simp) hshort

/-- Its document is read if it is a text, and nothing else is taken for it. -/
lemma read_eq_some_iff (h : HoldsDocument t root l names) (ht : t.WellFormed)
    (hroot : t.find root = .ok (l, .directory)) :
    Document.read t (placeOf root names) = .ok (some text) ↔ IsDocument t root l names text := by
  obtain ⟨bytes, seconds, hentry⟩ := h.document
  exact Document.read_eq_some_iff (h.find_placeOf ht hroot) fun target => by rw [hentry]; simp

lemma read_ne_none (h : HoldsDocument t root l names) (ht : t.WellFormed)
    (hroot : t.find root = .ok (l, .directory)) :
    Document.read t (placeOf root names) ≠ .ok none := by
  obtain ⟨bytes, seconds, hentry⟩ := h.document
  have hplace := h.find_placeOf ht hroot
  have hname := isEntryName_fileName
  have hlink : ∀ target, t.entryAt? (l ++ names ++ [fileName]) ≠ some (.link target) :=
    fun target => by rw [hentry]; simp
  unfold Document.read
  by_cases hadmitted : (pathIn (placeOf root names)).IsAdmitted
  · have hfind : t.find (pathIn (placeOf root names)) = .ok (_, .file bytes seconds) :=
      (find_join_iff hplace hname.toIsPlainName hlink).mpr ⟨hadmitted, hname.size_le, rfl, hentry⟩
    rw [readText_of_find hfind]
    cases String.fromUTF8? bytes <;> simp
  · -- the path is too long, which is not the same as nothing being there
    have hne := text_join_ne_empty (text_ne_empty_of_find hplace) hname.toIsPlainName
    obtain ⟨reason, hbegin⟩ := begin_of_not_admitted hadmitted
    have hreason : reason ≠ .missing := fun heq => begin_ne_missing hne (heq ▸ hbegin t)
    have hread : t.readText (pathIn (placeOf root names)) = .error reason := by
      unfold readText readBytes find locate
      rw [hbegin t]
      rfl
    rw [hread]
    cases reason <;> simp at hreason ⊢

end HoldsDocument

/-! ## The directories that are shown -/

/-- The documents below a directory that the project view comes by. -/
def documents (t : FileTree) (trail : List Location) (depth : Nat) (path : Path) (here : Location) :
    List Visited :=
  (t.visitBelow false showsDocument trail depth path here).filter (·.entry.isFile)

section
variable {trail : List Location} {depth : Nat} {path : Path} {here : Location} {v : Visited}

lemma showsDocument_directory {name : String} :
    showsDocument (seenAt path depth here name .directory) = isDrawn name := rfl

lemma showsDocument_file {name : String} {bytes : ByteArray} {seconds : Int64} :
    showsDocument (seenAt path depth here name (.file bytes seconds)) = (name == fileName) := rfl

/-- What the view comes by lies below directories that are drawn and can be read. -/
lemma exists_of_mem_documents (h : v ∈ documents t trail depth path here) :
    ∃ names bytes seconds, (∀ n ∈ names, isDrawn n = true) ∧
      AdmitsAbove path (names ++ [fileName]) ∧
      t.entryAt? (here ++ names ++ [fileName]) = some (.file bytes seconds) ∧
        v = ⟨(path.follow names).join ⟨fileName⟩, depth + names.length, fileName,
          .file bytes seconds, here ++ names ++ [fileName]⟩ := by
  obtain ⟨hv, hisFile⟩ := List.mem_filter.mp h
  induction trail, here using t.descent_induction generalizing depth path with
  | step trail here ihdirectory _ =>
    obtain ⟨hadmitted, name, e, hentry, hlisted, hv⟩ := mem_unfollowed_iff.mp hv
    rcases hv with rfl | ⟨rfl, hv⟩
    · cases e with
      | directory => cases hisFile
      | link target => cases hisFile
      | file bytes seconds =>
        rw [showsDocument_file, beq_iff_eq] at hlisted
        subst hlisted
        have habove : AdmitsAbove path ([] ++ [fileName]) :=
          admitsAbove_concat_iff.mpr ⟨admitsAbove_nil path, hadmitted⟩
        exact ⟨[], bytes, seconds, by simp, habove, by simpa using hentry, by simp [seenAt]⟩
    · obtain ⟨names, bytes, seconds, hdrawn, habove, hplace, hv⟩ :=
        ihdirectory name hentry (List.mem_filter.mpr ⟨hv, hisFile⟩) hv
      rw [showsDocument_directory] at hlisted
      refine ⟨name :: names, bytes, seconds, List.forall_mem_cons.mpr ⟨hlisted, hdrawn⟩,
        admitsAbove_cons_iff.mpr ⟨hadmitted, habove⟩, ?_, ?_⟩
      · simpa using hplace
      · rw [hv, Path.follow_cons]
        simp [Nat.add_assoc, Nat.add_comm 1]

/-- The view comes by every document below directories that are drawn and can be read. -/
lemma mem_documents (ht : t.WellFormed) {names : List String} {bytes : ByteArray} {seconds : Int64}
    (hdrawn : ∀ n ∈ names, isDrawn n = true) (habove : AdmitsAbove path (names ++ [fileName]))
    (hentry : t.entryAt? (here ++ names ++ [fileName]) = some (.file bytes seconds)) :
    ⟨(path.follow names).join ⟨fileName⟩, depth + names.length, fileName, .file bytes seconds,
      here ++ names ++ [fileName]⟩ ∈ documents t trail depth path here := by
  refine List.mem_filter.mpr ⟨?_, rfl⟩
  induction names generalizing trail depth path here with
  | nil =>
    have hadmitted := (admitsAbove_cons_iff.mp habove).1
    refine mem_unfollowed_iff.mpr ⟨hadmitted, fileName, _, by simpa using hentry, ?_, .inl ?_⟩
    · rw [showsDocument_file, beq_self_eq_true]
    · simp [seenAt]
  | cons name names ih =>
    have hsplit : here ++ name :: names ++ [fileName] = here ++ [name] ++ names ++ [fileName] := by
      simp
    rw [hsplit] at hentry ⊢
    have hdir : t.entryAt? (here ++ [name]) = some .directory := by
      rw [List.append_assoc] at hentry
      exact ht.above (by simp) hentry
    obtain ⟨hadmitted, habove⟩ := admitsAbove_cons_iff.mp habove
    refine mem_unfollowed_iff.mpr ⟨hadmitted, name, .directory, hdir, ?_, .inr ⟨rfl, ?_⟩⟩
    · rw [showsDocument_directory]
      exact hdrawn name List.mem_cons_self
    · rw [Path.follow_cons, List.length_cons, Nat.add_comm names.length, ← Nat.add_assoc]
      exact ih (fun n hn => hdrawn n (List.mem_cons_of_mem _ hn)) habove hentry

/-- A document is what has the name and is a file, below directories that are drawn and can be
read. -/
theorem mem_documents_iff (ht : t.WellFormed) :
    v ∈ documents t trail depth path here ↔ ∃ names bytes seconds, (∀ n ∈ names, isDrawn n = true) ∧
      AdmitsAbove path (names ++ [fileName]) ∧
      t.entryAt? (here ++ names ++ [fileName]) = some (.file bytes seconds) ∧
        v = ⟨(path.follow names).join ⟨fileName⟩, depth + names.length, fileName,
          .file bytes seconds, here ++ names ++ [fileName]⟩ := by
  constructor
  · exact exists_of_mem_documents
  · rintro ⟨names, bytes, seconds, hdrawn, habove, hentry, rfl⟩
    exact mem_documents ht hdrawn habove hentry

end

/-- The names that lead from a location to the directory of a document. -/
def wayOf (l : Location) (v : Visited) : List String := (v.location.drop l.length).dropLast

/-- The names that lead to the directories that the project view comes by, in its order. -/
def documented (t : FileTree) (root : Path) (l : Location) : List (List String) :=
  (documents t [l] 1 root l).map (wayOf l)

lemma wayOf_concat (l : Location) (names : List String) {v : Visited}
    (h : v.location = l ++ names ++ [fileName]) : wayOf l v = names := by
  rw [wayOf, h, List.append_assoc, List.drop_left, List.dropLast_concat]

/-- The directories on the way to a document can be read if the path of its directory is short
enough. -/
lemma admitsAbove_iff_placeOf (hroot : t.find root = .ok (l, .directory))
    (hn : ∀ n ∈ names, IsEntryName n) :
    AdmitsAbove root (names ++ [fileName]) ↔ (placeOf root names).text.utf8ByteSize ≤ pathLimit := by
  have hadmitted := isAdmitted_of_find hroot
  have hplain : ∀ n ∈ names, IsPlainName n := fun n hmem => (hn n hmem).toIsPlainName
  rw [admitsAbove_concat_iff]
  by_cases hnames : names = []
  · subst hnames
    have hplace := isAdmitted_of_find (find_trimmed hroot)
    exact iff_of_true ⟨admitsAbove_nil root, hadmitted⟩ hplace.size_le
  · have hplace : placeOf root names = root.follow names :=
      Path.trimmed_follow root hnames hplain
    rw [hplace]
    constructor
    · exact fun h => h.2.size_le
    · intro hsize
      have hfollow := isAdmitted_follow hadmitted hn hsize
      exact ⟨admitsAbove_of_admitted hadmitted.ne_empty hplain hfollow, hfollow⟩

theorem mem_documented_iff (ht : t.WellFormed) (hroot : t.find root = .ok (l, .directory)) :
    names ∈ documented t root l ↔ HoldsDocument t root l names := by
  have hnames : ∀ {names bytes seconds},
      t.entryAt? (l ++ names ++ [fileName]) = some (.file bytes seconds) →
        ∀ n ∈ names, IsEntryName n :=
    fun hentry n hmem => ht.isEntryName hentry n (by simp [hmem])
  unfold documented
  rw [List.mem_map]
  constructor
  · rintro ⟨v, hv, rfl⟩
    obtain ⟨names, bytes, seconds, hdrawn, habove, hentry, hv⟩ := (mem_documents_iff ht).mp hv
    have hway : wayOf l v = names := wayOf_concat l names (by rw [hv])
    rw [hway]
    have hshort := (admitsAbove_iff_placeOf hroot (hnames hentry)).mp habove
    exact ⟨hdrawn, ⟨bytes, seconds, hentry⟩, hshort⟩
  · rintro ⟨hdrawn, ⟨bytes, seconds, hentry⟩, hshort⟩
    have habove := (admitsAbove_iff_placeOf hroot (hnames hentry)).mpr hshort
    exact ⟨_, (mem_documents_iff ht).mpr ⟨names, bytes, seconds, hdrawn, habove, hentry, rfl⟩,
      wayOf_concat l names rfl⟩

/-- The directories come in the order in which their documents are met. -/
theorem pairwise_documented (ht : t.WellFormed) (root : Path) (l : Location) :
    (documented t root l).Pairwise fun a b => Precedes (a ++ [fileName]) (b ++ [fileName]) := by
  have hordered : (documents t [l] 1 root l).Pairwise fun v w => Precedes v.location w.location :=
    (pairwise_unfollowed ht).filter _
  refine List.pairwise_map.mpr (hordered.imp_of_mem fun {v w} hv hw hvw => ?_)
  obtain ⟨a, _, _, -, -, -, hv⟩ := (mem_documents_iff ht).mp hv
  obtain ⟨b, _, _, -, -, -, hw⟩ := (mem_documents_iff ht).mp hw
  rw [wayOf_concat l a (by rw [hv]), wayOf_concat l b (by rw [hw])]
  rw [hv, hw] at hvw
  dsimp only at hvw
  rwa [List.append_assoc, List.append_assoc, precedes_append_left_iff] at hvw

lemma nodup_documented (ht : t.WellFormed) (root : Path) (l : Location) :
    (documented t root l).Nodup := by
  refine (pairwise_documented ht root l).imp fun {a b} hab heq => ?_
  rw [heq] at hab
  exact not_precedes_self _ hab

/-- There are no more of them than entries of the tree. -/
lemma length_documented_le (ht : t.WellFormed) (hroot : t.find root = .ok (l, .directory)) :
    (documented t root l).length ≤ t.entries.length := by
  have hplaces : ((documented t root l).map fun names => l ++ names ++ [fileName]).Nodup := by
    refine List.Nodup.map (fun a b heq => ?_) (nodup_documented ht root l)
    exact List.append_cancel_left (List.append_cancel_right heq)
  have hsub : ((documented t root l).map fun names => l ++ names ++ [fileName]) ⊆
      t.entries.map (·.1) := by
    intro place hplace
    obtain ⟨names, hnames, rfl⟩ := List.mem_map.mp hplace
    obtain ⟨bytes, seconds, hentry⟩ := ((mem_documented_iff ht hroot).mp hnames).document
    exact List.mem_map_of_mem (mem_of_entryAt? (by simp) hentry)
  simpa using (List.subperm_of_subset hplaces hsub).length_le

/-- The first of the directories are shown. -/
theorem documentDirectories_eq (ht : t.WellFormed) (hroot : t.find root = .ok (l, .directory)) :
    documentDirectories t root = ((documented t root l).take documentLimit).map (placeOf root) := by
  have hvisits : t.visit false showsDocument root =
      ⟨root, 0, root.displayName, .directory, l⟩ ::
        t.visitBelow false showsDocument [l] 1 root l := by
    unfold visit
    rw [hroot]
    rfl
  -- the root is no document, and below it the depth is at least one
  have hdocuments : ∀ rootIsLink : Bool, (t.visit false showsDocument root).filter
      (fun v => v.entry.isFile && !(v.depth == 0 && rootIsLink)) = documents t [l] 1 root l := by
    intro rootIsLink
    rw [hvisits, List.filter_cons_of_neg (by simp [Entry.isFile])]
    refine List.filter_congr fun v hv => ?_
    have hdepth := (location_of_mem_unfollowed hv).1
    have hne : (v.depth == 0) = false := by
      rw [beq_eq_false_iff_ne]
      omega
    simp [hne]
  have hplaces : (documents t [l] 1 root l).filterMap (·.path.parent?) =
      ((documents t [l] 1 root l).map (wayOf l)).map (placeOf root) := by
    rw [List.map_map, ← List.filterMap_eq_map]
    refine List.filterMap_congr fun v hv => ?_
    obtain ⟨names, _, _, -, -, -, hv⟩ := (mem_documents_iff ht).mp hv
    have hway : wayOf l v = names := wayOf_concat l names (by rw [hv])
    rw [Function.comp_apply, Function.comp_apply, hway, hv]
    exact Path.parent?_join _ isEntryName_fileName.toIsPlainName
  unfold documentDirectories documented
  dsimp only
  rw [hdocuments, hplaces, List.map_take]

/-! ## The sections of the view -/

/-- The title of a section: the names with slashes between them, and a point for the root. A
backslash is shown as a slash. -/
def titleOf (names : List String) : String :=
  if names = [] then "."
  else .ofList (("/".intercalate names).toList.map fun c => if c = '\\' then '/' else c)

/-- The section of a directory: its title, the first ten lines of its document, and points if there
are more. -/
def sectionOf (names : List String) (text : String) : String :=
  "\n## " ++ titleOf names ++ "\n\n" ++
    (String.join (((linesOf text).take 10).map (· ++ "\n")) ++
      if (linesOf text).length > 10 then "...\n" else "")

/-- What stands above the sections: the entries of the root. -/
def projectHeading (t : FileTree) (root : Path) : String :=
  "# Project Structure\n\n```\n" ++ renderTree t root 1 ++ "```\n"

lemma relativeName_follow (hroot : root.text ≠ "") (hn : ∀ n ∈ names, IsPlainName n) :
    relativeName root (root.follow names) = titleOf names := by
  rw [relativeName, Path.relativeTo?_follow hroot hn]
  simp only [Path.isEmpty_ofNames hn, decide_eq_true_eq, titleOf]
  rfl

lemma relativeName_placeOf (hroot : root.text ≠ "") (hn : ∀ n ∈ names, IsPlainName n) :
    relativeName root (placeOf root names) = titleOf names := by
  by_cases hnames : names = []
  · subst hnames
    obtain ⟨rest, hrest, hempty⟩ := Path.relativeTo?_trimmed hroot
    rw [relativeName, placeOf, Path.follow_nil, hrest]
    simp [hempty, titleOf]
  · have hplace : placeOf root names = root.follow names := Path.trimmed_follow root hnames hn
    rw [hplace, relativeName_follow hroot hn]

lemma projectSection_eq_ok_iff (h : HoldsDocument t root l names) (ht : t.WellFormed)
    (hroot : t.find root = .ok (l, .directory)) {s : String} :
    projectSection t root (placeOf root names) = .ok s ↔
      ∃ text, IsDocument t root l names text ∧ s = sectionOf names text := by
  have htitle := relativeName_placeOf (text_ne_empty_of_find hroot) (h.isPlainName ht)
  simp only [← h.read_eq_some_iff ht hroot]
  unfold projectSection
  cases hread : Document.read t (placeOf root names) with
  | error reason => simp [bind, Except.bind]
  | ok found =>
    cases found with
    | none => exact absurd hread (h.read_ne_none ht hroot)
    | some text =>
      simp only [bind, Except.bind, pure, Except.pure, htitle, Except.ok.injEq, Option.some.injEq,
        exists_eq_left']
      exact eq_comm

/-- What is made of each of some things in turn succeeds if it does for each. -/
lemma mapM_eq_ok_iff {α β ε : Type} {f : α → Except ε β} {xs : List α} {ys : List β} :
    xs.mapM f = .ok ys ↔ List.Forall₂ (fun x y => f x = .ok y) xs ys := by
  induction xs generalizing ys with
  | nil => simp [pure, Except.pure, eq_comm]
  | cons x xs ih =>
    rw [List.mapM_cons, List.forall₂_cons_left_iff]
    cases hx : f x with
    | error reason => simp [bind, Except.bind]
    | ok y =>
      cases hxs : xs.mapM f with
      | error reason =>
        have hnone : ∀ ys, ¬List.Forall₂ (fun x y => f x = .ok y) xs ys := by
          intro ys hys
          rw [← ih, hxs] at hys
          cases hys
        simp [bind, Except.bind, hnone]
      | ok more =>
        simp only [bind, Except.bind, pure, Except.pure, Except.ok.injEq]
        constructor
        · rintro rfl
          exact ⟨y, more, rfl, ih.mp hxs, rfl⟩
        · rintro ⟨y', more', rfl, hmore, rfl⟩
          rw [Except.ok.inj (hxs.symm.trans (ih.mpr hmore))]

lemma forall₂_section_iff {shown : List (List String)} {sections : List String} :
    List.Forall₂ (fun names s => ∃ text, IsDocument t root l names text ∧ s = sectionOf names text)
        shown sections ↔
      ∃ texts, List.Forall₂ (IsDocument t root l) shown texts ∧
        sections = List.zipWith sectionOf shown texts := by
  induction shown generalizing sections with
  | nil => simp
  | cons names shown ih =>
    rw [List.forall₂_cons_left_iff]
    constructor
    · rintro ⟨s, rest, ⟨text, htext, rfl⟩, hrest, rfl⟩
      obtain ⟨texts, htexts, rfl⟩ := ih.mp hrest
      exact ⟨text :: texts, .cons htext htexts, rfl⟩
    · rintro ⟨texts, htexts, rfl⟩
      obtain ⟨text, rest, htext, hrest, rfl⟩ := List.forall₂_cons_left_iff.mp htexts
      exact ⟨_, _, ⟨text, htext, rfl⟩, ih.mpr ⟨rest, hrest, rfl⟩, rfl⟩

/-- The view has a section for each directory that is shown, if the document of each can be read. -/
theorem projectView_eq_ok_iff (ht : t.WellFormed) (hroot : t.find root = .ok (l, .directory))
    {view : String} : projectView t root = .ok view ↔
      ∃ texts, List.Forall₂ (IsDocument t root l) ((documented t root l).take documentLimit) texts ∧
        view = projectHeading t root ++
          String.join (List.zipWith sectionOf ((documented t root l).take documentLimit) texts) := by
  have hsections : ∀ sections, (documentDirectories t root).mapM (projectSection t root) =
      .ok sections ↔ ∃ texts,
        List.Forall₂ (IsDocument t root l) ((documented t root l).take documentLimit) texts ∧
          sections = List.zipWith sectionOf ((documented t root l).take documentLimit) texts := by
    intro sections
    have hholds : ∀ names ∈ (documented t root l).take documentLimit, HoldsDocument t root l names :=
      fun names hmem => (mem_documented_iff ht hroot).mp (List.mem_of_mem_take hmem)
    rw [mapM_eq_ok_iff, documentDirectories_eq ht hroot, List.forall₂_map_left_iff,
      ← forall₂_section_iff]
    refine ⟨fun h => ((List.forall₂_and_left _ _).mpr ⟨hholds, h⟩).imp ?_,
      fun h => ((List.forall₂_and_left _ _).mpr ⟨hholds, h⟩).imp ?_⟩
    · exact fun names s ⟨hnames, hs⟩ => (projectSection_eq_ok_iff hnames ht hroot).mp hs
    · exact fun names s ⟨hnames, hs⟩ => (projectSection_eq_ok_iff hnames ht hroot).mpr hs
  unfold projectView
  cases hmap : (documentDirectories t root).mapM (projectSection t root) with
  | error reason =>
    simp only [bind, Except.bind, reduceCtorEq, false_iff]
    rintro ⟨texts, htexts, -⟩
    have hok := (hsections _).mpr ⟨texts, htexts, rfl⟩
    rw [hmap] at hok
    cases hok
  | ok sections =>
    obtain ⟨texts, htexts, rfl⟩ := (hsections _).mp hmap
    simp only [bind, Except.bind, pure, Except.pure, Except.ok.injEq]
    constructor
    · rintro rfl
      exact ⟨texts, htexts, rfl⟩
    · rintro ⟨texts', htexts', rfl⟩
      have hsame := (hsections _).mpr ⟨texts', htexts', rfl⟩
      rw [hmap] at hsame
      rw [Except.ok.inj hsame]
      rfl

lemma exists_isDocument {shown : List (List String)} {texts : List String}
    (h : List.Forall₂ (IsDocument t root l) shown texts) (hmem : names ∈ shown) :
    ∃ text, IsDocument t root l names text := by
  obtain ⟨i, hi, rfl⟩ := List.getElem_of_mem hmem
  have hi' : i < texts.length := by rwa [← h.length_eq]
  exact ⟨texts[i], h.get hi hi'⟩

/-- Below the heading the view has sections for different directories: ten of those with a document, or
all if there are no more. It fails if the document of one of them is no text. -/
theorem projectView_sections (ht : t.WellFormed) (hroot : t.find root = .ok (l, .directory)) :
    ∃ below : List (List String), below.Nodup ∧
      (∀ names, names ∈ below ↔ HoldsDocument t root l names) ∧
      ∀ view, projectView t root = .ok view ↔
        ∃ texts, List.Forall₂ (IsDocument t root l) (below.take 10) texts ∧
          (∀ readable : List (List String), readable.Nodup →
            (∀ names, names ∈ readable ↔
              HoldsDocument t root l names ∧ ∃ text, IsDocument t root l names text) →
            texts.length = min 10 readable.length) ∧
          view = projectHeading t root ++
            String.join (List.zipWith sectionOf (below.take 10) texts) := by
  refine ⟨documented t root l, nodup_documented ht root l, fun names => mem_documented_iff ht hroot,
    fun view => ?_⟩
  rw [projectView_eq_ok_iff ht hroot]
  refine exists_congr fun texts => and_congr_right fun htexts => ?_
  refine ⟨fun hview => ⟨fun readable hnodup hreadable => ?_, hview⟩, fun h => h.2⟩
  have hlength := htexts.length_eq
  rw [List.length_take, documentLimit] at hlength
  -- those that are shown can be read, and those that can be read are come by
  have hshown : (documented t root l).take 10 ⊆ readable := by
    intro names hmem
    exact (hreadable names).mpr ⟨(mem_documented_iff ht hroot).mp (List.mem_of_mem_take hmem),
      exists_isDocument htexts hmem⟩
  have hcome : readable ⊆ documented t root l :=
    fun names hmem => (mem_documented_iff ht hroot).mpr ((hreadable names).mp hmem).1
  have hnodup' := (nodup_documented ht root l).sublist (List.take_sublist 10 _)
  have hle := (List.subperm_of_subset hnodup' hshown).length_le
  have hle' := (List.subperm_of_subset hnodup hcome).length_le
  rw [List.length_take] at hle
  omega

/-- A project with a document at its root and one in a directory, of which the second may be anything. -/
def notedWith (name : String) (bytes : ByteArray) : FileTree where
  entries := [([".context.md"], .file "# root\n".toUTF8 0), ([name], .directory),
    ([name, ".context.md"], .file bytes 0)]

lemma holdsDocument_notedWith_iff (bytes : ByteArray) (hdrawn : isDrawn name = true)
    (hshort : (placeOf ⟨"/"⟩ [name]).text.utf8ByteSize ≤ pathLimit) :
    HoldsDocument (notedWith name bytes) ⟨"/"⟩ [] names ↔ names = [] ∨ names = [name] := by
  have hname : name ≠ fileName := by
    rintro rfl
    exact absurd hdrawn (by decide)
  constructor
  · intro h
    obtain ⟨_, _, hentry⟩ := h.document
    have hmem := mem_of_entryAt? (by simp) hentry
    have hkeys : ∀ key : Location, key ∈ (notedWith name bytes).entries.map (·.1) →
        key = [".context.md"] ∨ key = [name] ∨ key = [name, ".context.md"] := by
      simp [notedWith]
    rw [List.nil_append] at hmem
    rcases hkeys _ (List.mem_map_of_mem hmem) with heq | heq | heq
    · exact .inl (List.append_cancel_right (heq : names ++ [fileName] = [] ++ [fileName]))
    · have hlast := congrArg List.getLast? heq
      rw [List.getLast?_concat, List.getLast?_singleton, Option.some.injEq] at hlast
      exact absurd hlast.symm hname
    · exact .inr (List.append_cancel_right (heq : names ++ [fileName] = [name] ++ [fileName]))
  · have hentry : (notedWith name bytes).entryAt? [name, fileName] = some (.file bytes 0) := by
      simp [notedWith, entryAt?, fileName, List.lookup_cons]
    rintro (rfl | rfl)
    · exact ⟨by simp, ⟨_, _, rfl⟩, by decide +kernel⟩
    · exact ⟨by simpa using hdrawn, ⟨_, _, hentry⟩, hshort⟩

/-- Where both documents are texts, the view has a section for each. -/
theorem projectView_notedWith_text :
    (notedWith "a" "one\n".toUTF8).WellFormed ∧
      (notedWith "a" "one\n".toUTF8).find ⟨"/"⟩ = .ok ([], .directory) ∧
      ∃ below : List (List String), below.Perm [[], ["a"]] ∧ ∃ texts, texts.length = 2 ∧
        projectView (notedWith "a" "one\n".toUTF8) ⟨"/"⟩ =
          .ok (projectHeading (notedWith "a" "one\n".toUTF8) ⟨"/"⟩ ++
            String.join (List.zipWith sectionOf (below.take 10) texts)) := by
  have ht : (notedWith "a" "one\n".toUTF8).WellFormed := by decide
  have hholds : ∀ {names}, HoldsDocument (notedWith "a" "one\n".toUTF8) ⟨"/"⟩ [] names ↔
      names = [] ∨ names = ["a"] :=
    holdsDocument_notedWith_iff _ (by decide) (by decide +kernel)
  obtain ⟨below, hnodup, hbelow, hview⟩ := projectView_sections ht (find_slash _)
  have hperm : below.Perm [[], ["a"]] := by
    refine (List.perm_ext_iff_of_nodup hnodup (by decide)).mpr fun names => ?_
    rw [hbelow, hholds]
    simp
  have hroot : IsDocument (notedWith "a" "one\n".toUTF8) ⟨"/"⟩ [] [] "# root\n" :=
    ⟨by decide +kernel, _, _, rfl, by decide⟩
  have hinner : IsDocument (notedWith "a" "one\n".toUTF8) ⟨"/"⟩ [] ["a"] "one\n" :=
    ⟨by decide +kernel, _, _, rfl, by decide⟩
  have hdocument : ∀ names ∈ below, IsDocument (notedWith "a" "one\n".toUTF8) ⟨"/"⟩ [] names
      (if names = [] then "# root\n" else "one\n") := by
    intro names hmem
    rcases hholds.mp ((hbelow names).mp hmem) with rfl | rfl
    · exact hroot
    · exact hinner
  have hall : below.take 10 = below := List.take_of_length_le (by rw [hperm.length_eq]; decide)
  refine ⟨ht, find_slash _, below, hperm, below.map fun names =>
    if names = [] then "# root\n" else "one\n", ?_, ?_⟩
  · rw [List.length_map, hperm.length_eq]
    rfl
  · refine (hview _).mpr ⟨_, ?_, fun readable hreadable hiff => ?_, rfl⟩
    · rw [hall, List.forall₂_map_right_iff]
      exact List.forall₂_same.mpr hdocument
    · have hsame : readable.Perm below := by
        refine (List.perm_ext_iff_of_nodup hreadable hnodup).mpr fun names => ?_
        rw [hiff, hbelow, and_iff_left_iff_imp]
        exact fun h => ⟨_, hdocument names ((hbelow names).mpr h)⟩
      rw [List.length_map, hsame.length_eq, hperm.length_eq]
      rfl

/-- A document that is no text makes the view fail, though the other one is a text. -/
theorem projectView_notedWith_bytes :
    (notedWith "a" ⟨#[0xff]⟩).WellFormed ∧ HoldsDocument (notedWith "a" ⟨#[0xff]⟩) ⟨"/"⟩ [] [] ∧
      IsDocument (notedWith "a" ⟨#[0xff]⟩) ⟨"/"⟩ [] [] "# root\n" ∧
        ∀ view, projectView (notedWith "a" ⟨#[0xff]⟩) ⟨"/"⟩ ≠ .ok view := by
  have ht : (notedWith "a" ⟨#[0xff]⟩).WellFormed := by decide
  have hholds : ∀ {names}, HoldsDocument (notedWith "a" ⟨#[0xff]⟩) ⟨"/"⟩ [] names ↔
      names = [] ∨ names = ["a"] :=
    holdsDocument_notedWith_iff _ (by decide) (by decide +kernel)
  have hnone : String.fromUTF8? ⟨#[0xff]⟩ = none := by decide
  refine ⟨ht, hholds.mpr (.inl rfl),
    ⟨by decide +kernel, _, _, rfl, by decide⟩, fun view hview => ?_⟩
  obtain ⟨texts, htexts, -⟩ := (projectView_eq_ok_iff ht (find_slash _)).mp hview
  have hmem := (mem_documented_iff ht (find_slash _)).mpr (hholds.mpr (.inr rfl))
  have hfew : (documented (notedWith "a" ⟨#[0xff]⟩) ⟨"/"⟩ []).length ≤ documentLimit :=
    (length_documented_le ht (find_slash _)).trans (by decide)
  rw [List.take_of_length_le hfew] at htexts
  obtain ⟨text, -, bytes, seconds, hentry, htext⟩ := exists_isDocument htexts hmem
  cases hentry
  rw [hnone] at htext
  cases htext

end DirectoryNotes.View
