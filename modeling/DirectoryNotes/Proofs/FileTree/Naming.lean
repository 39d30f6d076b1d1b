import DirectoryNotes.Proofs.FileTree.Descent
import DirectoryNotes.Proofs.FileTree.RealPath
import DirectoryNotes.Proofs.Path.Trimmed
import Mathlib.Algebra.GroupWithZero.Nat

/-!
# Naming what lies below a directory

The path of a directory, continued by the names of an entry below it, leads to that entry unless it
is a link or the path is too long for the file system:

* `isAdmitted_follow`: only the length of such a path matters;
* `find_follow_of_entry`: it leads to the entry;
* `find_follow_iff`: without links below the directory it leads nowhere else;
* `find_trimmed`: what counts for nothing at the end of a directory's path may be left out;
* `find_withSlashes`: slashes may be put there, until the path is too long;
* `size_pathOf`: how long the path of a location is.
-/

namespace DirectoryNotes.FileTree

variable {t : FileTree} {root p : Path} {l k : Location} {e : Entry} {names : List String}
  {name : String}

lemma null_notMem_join (hp : '\x00' ∉ p.text.toList) (hname : IsEntryName name) :
    '\x00' ∉ (p.join ⟨name⟩).text.toList := by
  rw [Path.join_toList p hname.isAbsolute_eq]
  have hslash : '\x00' ∉ Text.slashAfter p.text.toList := by
    unfold Text.slashAfter
    split <;> simp
  simp [hp, hslash, hname.no_null]

lemma null_notMem_follow (hp : '\x00' ∉ p.text.toList) (hn : ∀ n ∈ names, IsEntryName n) :
    '\x00' ∉ (p.follow names).text.toList := by
  induction names generalizing p with
  | nil => exact hp
  | cons name rest ih =>
    rw [Path.follow_cons]
    exact ih (null_notMem_join hp (hn name (by simp))) fun n hmem =>
      hn n (List.mem_cons_of_mem _ hmem)

/-- A path that is continued by names is admitted if it is short enough. -/
lemma isAdmitted_follow (hp : p.IsAdmitted) (hn : ∀ n ∈ names, IsEntryName n)
    (hsize : (p.follow names).text.utf8ByteSize ≤ pathLimit) : (p.follow names).IsAdmitted where
  ne_empty := text_follow_ne_empty hp.ne_empty fun n hmem => (hn n hmem).toIsPlainName
  no_null := null_notMem_follow hp.no_null hn
  size_le := hsize

/-- A directory's path, continued by the names of an entry below it that is no link, leads to that
entry. -/
lemma find_follow_of_entry (ht : t.WellFormed) (hroot : t.find root = .ok (l, .directory))
    (he : t.entryAt? (l ++ names) = some e) (hlink : ∀ target, e ≠ .link target)
    (hsize : (root.follow names).text.utf8ByteSize ≤ pathLimit) :
    t.find (root.follow names) = .ok (l ++ names, e) := by
  have hn : ∀ n ∈ names, IsEntryName n := fun n hmem =>
    ht.isEntryName he n (List.mem_append_right _ hmem)
  have hadmitted := isAdmitted_follow (isAdmitted_of_find hroot) hn hsize
  clear hsize
  -- from the last name upwards: the directories above lie on the way
  induction names using List.reverseRecOn generalizing e with
  | nil =>
    rw [List.append_nil, (find_eq_ok_iff.mp hroot).2] at he
    obtain rfl := Option.some.inj he
    rw [List.append_nil]
    exact hroot
  | append_singleton front last ih =>
    rw [← List.append_assoc] at he ⊢
    have hfront : ∀ n ∈ front, IsEntryName n := fun n hmem => hn n (by simp [hmem])
    have hlast : IsEntryName last := hn last (by simp)
    have hplain : ∀ n ∈ [last], IsPlainName n := by simpa using hlast.toIsPlainName
    rw [Path.follow_append] at hadmitted
    have hdir := ht.parent he
    have hne := text_follow_ne_empty (text_ne_empty_of_find hroot) fun n hmem =>
      (hfront n hmem).toIsPlainName
    have habove := ih hdir (by simp) hfront (isAdmitted_of_follow hne hplain hadmitted)
    have hnext : ∀ target, t.entryAt? (l ++ front ++ [last]) ≠ some (.link target) := by
      intro target heq
      rw [he] at heq
      exact hlink target (Option.some.inj heq)
    rw [Path.follow_concat]
    exact (find_join_iff habove hlast.toIsPlainName hnext).mpr ⟨hadmitted, hlast.size_le, rfl, he⟩

/-- In a project names lead to a directory where one stands, if their path is short enough. -/
lemma find_follow_iff (ht : t.IsProject root l) (hn : ∀ n ∈ names, IsPlainName n) :
    t.find (root.follow names) = .ok (k, .directory) ↔
      k = l ++ names ∧ t.entryAt? (l ++ names) = some .directory ∧
        (root.follow names).text.utf8ByteSize ≤ pathLimit := by
  constructor
  · intro h
    obtain ⟨hk, he⟩ := find_follow ht.root ht.linkFree hn h
    exact ⟨hk, he, (isAdmitted_of_find h).size_le⟩
  · rintro ⟨rfl, he, hsize⟩
    exact find_follow_of_entry ht.wellFormed ht.root he (by simp) hsize

/-! ## Trimmed paths -/

/-- The segment that a leading point is. -/
def leadOf : Path.Opening → List (List Char)
  | .here => [['.']]
  | _ => []

/-- The segments of a path are those after its opening. -/
lemma segments_eq (p : Path) :
    segments p.text = (leadOf p.opened.1 ++ p.opened.2).map String.ofList := by
  unfold segments
  by_cases hroot : p.text.toList.head? = some '/'
  · obtain ⟨rest, hrest⟩ := List.head?_eq_some_iff.mp hroot
    rw [Path.opened_of_root hrest, hrest]
    simp [leadOf]
  · obtain ⟨first, rest, hpieces⟩ :=
      List.exists_cons_of_ne_nil (Text.pieces_ne_nil '/' p.text.toList)
    rw [Path.opened_of_other hroot hpieces]
    simp only [if_neg hroot, hpieces]
    by_cases hfirst : first = ['.'] <;> simp [hfirst, leadOf]

lemma startOf_eq (p : Path) (here : Location) :
    startOf p.text here = if p.opened.1 = .root then [] else here := by
  unfold startOf
  by_cases hroot : p.text.toList.head? = some '/'
  · obtain ⟨rest, hrest⟩ := List.head?_eq_some_iff.mp hroot
    rw [Path.opened_of_root hrest, if_pos hroot, if_pos rfl]
  · obtain ⟨first, rest, hpieces⟩ :=
      List.exists_cons_of_ne_nil (Text.pieces_ne_nil '/' p.text.toList)
    rw [Path.opened_of_other hroot hpieces, if_neg hroot]
    by_cases hfirst : first = ['.'] <;> simp [hfirst]

lemma eq_of_isIdle {segment : List Char} (h : Path.isIdle segment = true) :
    String.ofList segment = "" ∨ String.ofList segment = "." := by
  unfold Path.isIdle PathPart.ofSegment? at h
  split at h
  · next hidle =>
    rcases hidle with rfl | rfl
    · exact .inl rfl
    · exact .inr rfl
  · split at h <;> cases h

/-- The end of a path that is trimmed leads nowhere further. -/
theorem find_trimmed (hp : t.find p = .ok (l, .directory)) :
    t.find p.trimmed = .ok (l, .directory) := by
  have hleads := leadsInto_of_find hp
  have hadmitted := isAdmitted_of_find hp
  obtain ⟨idle, hidle, hopened⟩ := Path.opened_trimmed hadmitted.ne_empty
  have hempty : ∀ segment ∈ idle.map String.ofList, segment = "" ∨ segment = "." := by
    intro segment hs
    obtain ⟨chars, hchars, rfl⟩ := List.mem_map.mp hs
    exact .inl (by rw [hidle chars hchars])
  -- what the path has more at its end than the trimmed one is idle too
  obtain ⟨back, hback, hsegments⟩ := Path.exists_dropIdleEnd_append p.opened.2
  have hmore : ∀ segment ∈ back.map String.ofList, segment = "" ∨ segment = "." := by
    intro segment hs
    obtain ⟨chars, hchars, rfl⟩ := List.mem_map.mp hs
    exact eq_of_isIdle (hback chars hchars)
  have hway : t.walk linkLimit (startOf p.text t.workingDirectory)
      ((leadOf p.opened.1 ++ Path.dropIdleEnd p.opened.2).map String.ofList) = .ok l := by
    refine walk_before_idle hmore ?_
    rw [← List.map_append, List.append_assoc, ← hsegments, ← segments_eq]
    exact hleads.way
  refine LeadsInto.find ⟨?_, hleads.directory⟩ ⟨Path.text_trimmed_ne_empty hadmitted.ne_empty,
    fun hmem => hadmitted.no_null ((Path.trimmed_prefix p).subset hmem),
    (Path.utf8ByteSize_trimmed_le p).trans hadmitted.size_le⟩
  obtain ⟨left, -, hwalk⟩ := walk_append t linkLimit (startOf p.text t.workingDirectory)
    ((leadOf p.opened.1 ++ Path.dropIdleEnd p.opened.2).map String.ofList) (idle.map String.ofList)
  rw [segments_eq, startOf_eq, hopened, ← startOf_eq, ← List.append_assoc, List.map_append, hwalk,
    hway, Except.bind]
  exact walk_idle_end hempty hleads.directory

/-! ## Slashes behind a path -/

/-- A path with a number of slashes behind it. -/
def withSlashes (p : Path) (n : Nat) : Path := ⟨p.text ++ .ofList (List.replicate n '/')⟩

lemma toList_withSlashes (p : Path) (n : Nat) :
    (withSlashes p n).text.toList = p.text.toList ++ List.replicate n '/' := by
  rw [withSlashes, String.toList_append, String.toList_ofList]

lemma size_withSlashes (p : Path) (n : Nat) :
    (withSlashes p n).text.utf8ByteSize = p.text.utf8ByteSize + n := by
  have hslash : '/'.utf8Size = 1 := by decide
  rw [withSlashes, String.utf8ByteSize_append, Text.utf8ByteSize_replicate, hslash, Nat.mul_one]

lemma segments_withSlashes (hp : p.text ≠ "") (n : Nat) :
    segments (withSlashes p n).text = segments p.text ++ List.replicate n "" := by
  obtain ⟨c, cs, hchars⟩ := List.exists_cons_of_ne_nil (mt String.toList_eq_nil_iff.mp hp)
  have hpieces := Text.pieces_append_replicate '/' (c :: cs) n
  rw [List.cons_append] at hpieces
  unfold segments
  rw [toList_withSlashes, hchars]
  by_cases hroot : c = '/'
  · simp [hroot, Text.pieces_append_replicate]
  · simp [hroot, hpieces]

/-- Slashes behind the path of a directory lead nowhere further, as long as they are not too many. -/
theorem find_withSlashes {n : Nat} (hp : t.find p = .ok (l, .directory))
    (hsize : p.text.utf8ByteSize + n ≤ pathLimit) : t.find (withSlashes p n) = .ok (l, .directory) := by
  have hleads := leadsInto_of_find hp
  have hadmitted := isAdmitted_of_find hp
  have hne := mt String.toList_eq_nil_iff.mp hadmitted.ne_empty
  have hstart : startOf (withSlashes p n).text t.workingDirectory =
      startOf p.text t.workingDirectory := by
    rw [startOf, startOf, toList_withSlashes, List.head?_append_of_ne_nil _ hne]
  refine LeadsInto.find ⟨?_, hleads.directory⟩ ⟨?_, ?_, by rwa [size_withSlashes]⟩
  · obtain ⟨left, -, hwalk⟩ := walk_append t linkLimit (startOf p.text t.workingDirectory)
      (segments p.text) (List.replicate n "")
    rw [hstart, segments_withSlashes hadmitted.ne_empty, hwalk, hleads.way, Except.bind]
    exact walk_idle_end (fun _ hmem => .inl (List.eq_of_mem_replicate hmem)) hleads.directory
  · rw [ne_eq, ← String.toList_eq_nil_iff, toList_withSlashes, List.append_eq_nil_iff]
    exact fun h => hne h.1
  · rw [toList_withSlashes, List.mem_append, not_or]
    exact ⟨hadmitted.no_null,
      fun hmem => absurd (List.eq_of_mem_replicate hmem) (by decide)⟩

/-- With too many slashes the path has no room for a name. -/
lemma not_isAdmitted_join_withSlashes {n : Nat} (hname : IsPlainName name)
    (hsize : pathLimit < p.text.utf8ByteSize + n + name.utf8ByteSize) :
    ¬((withSlashes p n).join ⟨name⟩).IsAdmitted := by
  intro hadmitted
  have hsublist : ((withSlashes p n).text ++ name).toList.Sublist
      ((withSlashes p n).join ⟨name⟩).text.toList := by
    rw [Path.join_toList _ hname.isAbsolute_eq, String.toList_append, List.append_assoc]
    exact (List.sublist_append_right _ _).append_left _
  have hle := Text.utf8ByteSize_le_of_sublist hsublist
  have hlimit := hadmitted.size_le
  rw [String.utf8ByteSize_append, size_withSlashes] at hle
  omega

/-! ## How long a path is -/

/-- The path of a location has a slash in front of each name. -/
lemma size_pathOf (hne : l ≠ []) :
    (pathOf l).text.utf8ByteSize = (l.map fun name => name.utf8ByteSize + 1).sum := by
  have hslash : "/".utf8ByteSize = 1 := rfl
  rw [pathOf, String.utf8ByteSize_append, hslash]
  induction l with
  | nil => exact absurd rfl hne
  | cons name rest ih =>
    cases rest with
    | nil => simp [Nat.add_comm]
    | cons next more =>
      rw [String.intercalate_cons_cons, String.utf8ByteSize_append, String.utf8ByteSize_append, hslash,
        List.map_cons, List.sum_cons, ← ih (List.cons_ne_nil _ _)]
      omega

end DirectoryNotes.FileTree
