import DirectoryNotes.Proofs.FileTree.Entries
import DirectoryNotes.Proofs.Text.Bytes
import Mathlib.Data.List.Induction

/-!
# Where paths lead

A path is followed segment by segment, so a path continued by a name leads to where the path leads
and one step further:

* `walk_append`: following two runs of segments is following one and then the other;
* `find_join_iff`: what a directory's path, continued by a name, leads to, when no link has that
  name; `find_follow` repeats it for many names in a tree without links below the directory;
* `LeadsInto`: the directory that names joined to a path are names in;
* `readText_eq_ok_iff`: the text that a path leads to;
* `KeepsWays`, `KeepsWaysOff`: a tree that has the directories and links of another, and no other
  links, everywhere or except at some places. `KeepsWays.find_directory` says that a path still leads
  where it led, and `KeepsWaysOff.walk` that a way does that goes over none of these places;
* `IsProject`: the tree around the root of a project, with no links below it.
-/

namespace DirectoryNotes

/-- A path that the file system takes at all. -/
structure Path.IsAdmitted (p : Path) : Prop where
  ne_empty : p.text ≠ ""
  no_null : '\x00' ∉ p.text.toList
  size_le : p.text.utf8ByteSize ≤ FileTree.pathLimit

instance (p : Path) : Decidable p.IsAdmitted :=
  decidable_of_iff
    (p.text ≠ "" ∧ '\x00' ∉ p.text.toList ∧ p.text.utf8ByteSize ≤ FileTree.pathLimit)
    ⟨fun ⟨h1, h2, h3⟩ => ⟨h1, h2, h3⟩, fun ⟨h1, h2, h3⟩ => ⟨h1, h2, h3⟩⟩

namespace FileTree

variable {t t' : FileTree} {l k here : Location} {e : Entry} {name : String} {p root : Path}
  {names : List String} {links : Nat}

/-! ## One step -/

lemma walk_nil (t : FileTree) (links : Nat) (here : Location) : t.walk links here [] = .ok here := by
  rw [walk]

section
variable {segment target : String} {rest : List String}

lemma walk_of_idle (hdir : t.entryAt? here = some .directory)
    (hidle : segment = "" ∨ segment = ".") :
    t.walk links here (segment :: rest) = t.walk links here rest := by
  rw [walk.eq_def, hdir]
  simp only [hidle, if_true]

lemma walk_up (hdir : t.entryAt? here = some .directory) :
    t.walk links here (".." :: rest) = t.walk links here.dropLast rest := by
  rw [walk.eq_def, hdir]
  simp

lemma walk_of_tooLong (hdir : t.entryAt? here = some .directory)
    (hidle : ¬(segment = "" ∨ segment = ".")) (hup : segment ≠ "..")
    (hlong : segment.utf8ByteSize > nameLimit) :
    t.walk links here (segment :: rest) = .error .nameTooLong := by
  rw [walk.eq_def, hdir]
  simp only [hidle, hup, hlong, if_true, if_false]

lemma walk_of_link (hdir : t.entryAt? here = some .directory)
    (hidle : ¬(segment = "" ∨ segment = ".")) (hup : segment ≠ "..")
    (hlong : ¬segment.utf8ByteSize > nameLimit)
    (hlink : t.entryAt? (here ++ [segment]) = some (.link target)) :
    t.walk (links + 1) here (segment :: rest) =
      t.walk links (startOf target here) (segments target ++ rest) := by
  rw [walk.eq_def, hdir]
  simp only [hidle, hup, hlong, if_false, hlink]

lemma walk_of_last_link (hdir : t.entryAt? here = some .directory)
    (hidle : ¬(segment = "" ∨ segment = ".")) (hup : segment ≠ "..")
    (hlong : ¬segment.utf8ByteSize > nameLimit)
    (hlink : t.entryAt? (here ++ [segment]) = some (.link target)) :
    t.walk 0 here (segment :: rest) = .error .tooManyLinks := by
  rw [walk.eq_def, hdir]
  simp only [hidle, hup, hlong, if_false, hlink]

lemma walk_of_entry (hdir : t.entryAt? here = some .directory)
    (hidle : ¬(segment = "" ∨ segment = ".")) (hup : segment ≠ "..")
    (hlong : ¬segment.utf8ByteSize > nameLimit)
    (hlink : ∀ target, t.entryAt? (here ++ [segment]) ≠ some (.link target)) :
    t.walk links here (segment :: rest) = t.walk links (here ++ [segment]) rest := by
  rw [walk.eq_def, hdir]
  simp only [hidle, hup, hlong, if_false]
  split
  · next heq => exact absurd heq (hlink _)
  · next heq => exact absurd heq (hlink _)
  · rfl

end

/-- Where the way goes on from an entry, the entry is no link. -/
lemma not_link_of_cases {o : Option Entry} (hzero : ∀ target, o = some (.link target) → links = 0 → False)
    (hsucc : ∀ target n, o = some (.link target) → links = n + 1 → False) (target : String) :
    o ≠ some (.link target) := by
  intro h
  cases links with
  | zero => exact hzero target h rfl
  | succ n => exact hsucc target n h rfl

/-- Only from a directory does a segment lead anywhere. -/
lemma walk_cons_ok {segment : String} {rest : List String}
    (h : t.walk links here (segment :: rest) = .ok l) : t.entryAt? here = some .directory := by
  rw [walk.eq_def] at h
  dsimp only at h
  split at h
  · cases h
  · assumption
  · cases h

/-! ## Many steps -/

/-- Following two runs of segments is following one and then the other, with the links that are
left. -/
lemma walk_append (t : FileTree) (links : Nat) (here : Location) (first second : List String) :
    ∃ left ≤ links, t.walk links here (first ++ second) =
      (t.walk links here first).bind fun l => t.walk left l second := by
  -- every link that the first run takes is one less for the second
  fun_induction t.walk links here first with
  | case1 links here => exact ⟨links, Nat.le_refl _, rfl⟩
  | case2 links here segment rest hnone =>
    exact ⟨links, Nat.le_refl _, by rw [List.cons_append, walk.eq_def, hnone]; rfl⟩
  | case3 links here segment rest hdir hidle ih =>
    rw [List.cons_append, walk_of_idle hdir hidle]
    exact ih
  | case4 links here rest hdir _ ih =>
    rw [List.cons_append, walk_up hdir]
    exact ih
  | case5 links here segment rest hdir hidle hup hlong =>
    exact ⟨links, Nat.le_refl _, by rw [List.cons_append, walk_of_tooLong hdir hidle hup hlong]; rfl⟩
  | case6 here segment rest hdir hidle hup hlong target hlink =>
    exact ⟨0, Nat.le_refl _,
      by rw [List.cons_append, walk_of_last_link hdir hidle hup hlong hlink]; rfl⟩
  | case7 here segment rest hdir hidle hup hlong target links hlink ih =>
    rw [List.cons_append, walk_of_link hdir hidle hup hlong hlink, ← List.append_assoc]
    obtain ⟨left, hle, heq⟩ := ih
    exact ⟨left, Nat.le_succ_of_le hle, heq⟩
  | case8 here segment rest hdir hidle hup hlong links hzero hsucc ih =>
    rw [List.cons_append, walk_of_entry hdir hidle hup hlong (not_link_of_cases hzero hsucc)]
    exact ih
  | case9 links here segment rest val hval hsome =>
    refine ⟨links, Nat.le_refl _, ?_⟩
    rw [List.cons_append, walk.eq_def, hsome]
    cases val with
    | directory => exact absurd rfl hval
    | file bytes seconds => rfl
    | link target => rfl

/-- With more links to take, segments come to what they came to, unless there were too few. -/
lemma walk_eq_of_le {path : List String} {more : Nat}
    (h : t.walk links here path ≠ .error .tooManyLinks) (hle : links ≤ more) :
    t.walk more here path = t.walk links here path := by
  fun_induction t.walk links here path generalizing more with
  | case1 => exact walk_nil ..
  | case2 links here segment rest hnone => rw [walk.eq_def, hnone]
  | case3 links here segment rest hdir hidle ih =>
    rw [walk_of_idle hdir hidle]
    exact ih h hle
  | case4 links here rest hdir _ ih =>
    rw [walk_up hdir]
    exact ih h hle
  | case5 links here segment rest hdir hidle hup hlong => exact walk_of_tooLong hdir hidle hup hlong
  | case6 => exact absurd rfl h
  | case7 here segment rest hdir hidle hup hlong target links hlink ih =>
    obtain ⟨left, rfl⟩ : ∃ left, more = left + 1 := Nat.exists_eq_succ_of_ne_zero (by omega)
    rw [walk_of_link hdir hidle hup hlong hlink]
    exact ih h (Nat.le_of_succ_le_succ hle)
  | case8 here segment rest hdir hidle hup hlong links hzero hsucc ih =>
    rw [walk_of_entry hdir hidle hup hlong (not_link_of_cases hzero hsucc)]
    exact ih h hle
  | case9 links here segment rest val hval hsome =>
    rw [walk.eq_def, hsome]
    cases val with
    | directory => exact absurd rfl hval
    | file bytes seconds => rfl
    | link target => rfl

lemma walk_of_le {path : List String} {more : Nat} (h : t.walk links here path = .ok l)
    (hle : links ≤ more) : t.walk more here path = .ok l := by
  rw [walk_eq_of_le (by simp [h]) hle, h]

lemma walk_error_of_le {path : List String} {more : Nat} {reason : FileError}
    (h : t.walk links here path = .error reason) (hreason : reason ≠ .tooManyLinks)
    (hle : links ≤ more) : t.walk more here path = .error reason := by
  rw [walk_eq_of_le (by simpa [h] using hreason) hle, h]

/-- A name leads to the entry of that name, unless it is a link. -/
lemma walk_name (hdir : t.entryAt? here = some .directory) (hname : IsPlainName name)
    (hlink : ∀ target, t.entryAt? (here ++ [name]) ≠ some (.link target)) :
    t.walk links here [name] =
      if name.utf8ByteSize ≤ nameLimit then .ok (here ++ [name]) else .error .nameTooLong := by
  split
  · next hsize =>
    rw [walk_of_entry hdir hname.not_idle hname.ne_up (Nat.not_lt.mpr hsize) hlink, walk_nil]
  · next hsize =>
    rw [walk_of_tooLong hdir hname.not_idle hname.ne_up (Nat.not_le.mp hsize)]

/-! ## Paths -/

lemma begin_of_admitted (t : FileTree) (h : p.IsAdmitted) :
    t.begin p = .ok (startOf p.text t.workingDirectory, segments p.text) := by
  have hempty : p.isEmpty = false := by simpa [Path.isEmpty] using h.ne_empty
  have hnull : p.text.toList.contains '\x00' = false := by simpa using h.no_null
  have hsize : ¬p.text.utf8ByteSize > pathLimit := Nat.not_lt.mpr h.size_le
  simp only [begin, hempty, hnull, hsize, if_false, Bool.false_eq_true]

lemma begin_of_not_admitted (h : ¬p.IsAdmitted) : ∃ reason, ∀ t : FileTree,
    t.begin p = .error reason := by
  simp only [begin]
  by_cases hempty : p.isEmpty
  · exact ⟨.missing, fun t => if_pos hempty⟩
  by_cases hnull : p.text.toList.contains '\x00'
  · exact ⟨.nullInPath, fun t => by rw [if_neg hempty, if_pos hnull]⟩
  by_cases hsize : p.text.utf8ByteSize > pathLimit
  · exact ⟨.nameTooLong, fun t => by rw [if_neg hempty, if_neg hnull, if_pos hsize]⟩
  · exact absurd ⟨by simpa [Path.isEmpty] using hempty, by simpa using hnull, Nat.not_lt.mp hsize⟩ h

lemma begin_ne_missing (hp : p.text ≠ "") : t.begin p ≠ .error .missing := by
  have hempty : p.isEmpty = false := by simpa [Path.isEmpty, String.isEmpty_iff] using hp
  unfold begin
  rw [hempty]
  split
  · contradiction
  · split
    · simp
    · split <;> simp

lemma locate_of_admitted (t : FileTree) (h : p.IsAdmitted) :
    t.locate p = t.walk linkLimit (startOf p.text t.workingDirectory) (segments p.text) := by
  unfold locate
  rw [begin_of_admitted t h]
  rfl

lemma find_eq_ok_iff : t.find p = .ok (l, e) ↔ t.locate p = .ok l ∧ t.entryAt? l = some e := by
  unfold find
  cases hp : t.locate p with
  | error reason => simp [bind, Except.bind]
  | ok k =>
    simp only [bind, Except.bind, Except.ok.injEq]
    cases hk : t.entryAt? k with
    | none =>
      simp only [reduceCtorEq, false_iff, not_and]
      rintro rfl
      simp [hk]
    | some d =>
      simp only [Except.ok.injEq, Prod.mk.injEq]
      constructor
      · rintro ⟨rfl, rfl⟩
        exact ⟨rfl, hk⟩
      · rintro ⟨rfl, he⟩
        exact ⟨rfl, by simpa [hk] using he⟩

/-- The slash leads to the top of every tree. -/
lemma find_slash (t : FileTree) : t.find ⟨"/"⟩ = .ok ([], .directory) := by
  have hadmitted : (Path.mk "/").IsAdmitted := by decide +kernel
  have hsegments : segments "/" = [""] := by decide
  have hstart : startOf "/" t.workingDirectory = [] := rfl
  refine find_eq_ok_iff.mpr ⟨?_, entryAt?_nil t⟩
  rw [locate_of_admitted t hadmitted, hsegments, hstart, walk_of_idle (entryAt?_nil t) (.inl rfl),
    walk_nil]

lemma isAdmitted_of_locate (h : t.locate p = .ok l) : p.IsAdmitted := by
  refine Classical.byContradiction fun hnot => ?_
  obtain ⟨reason, hreason⟩ := begin_of_not_admitted hnot
  unfold locate at h
  rw [hreason t] at h
  cases h

/-- Of a path that is taken another is left that is taken too, unless nothing is left. -/
lemma isAdmitted_of_sublist {q : Path} (hp : p.text ≠ "")
    (hsub : p.text.toList.Sublist q.text.toList) (hq : q.IsAdmitted) : p.IsAdmitted where
  ne_empty := hp
  no_null hnull := hq.no_null (hsub.subset hnull)
  size_le := (Text.utf8ByteSize_le_of_sublist hsub).trans hq.size_le

lemma walk_of_locate (h : t.locate p = .ok l) :
    t.walk linkLimit (startOf p.text t.workingDirectory) (segments p.text) = .ok l := by
  rwa [locate_of_admitted t (isAdmitted_of_locate h)] at h

lemma isAdmitted_of_find (h : t.find p = .ok (l, e)) : p.IsAdmitted :=
  isAdmitted_of_locate (find_eq_ok_iff.mp h).1

/-- What goes below a path adds its segments, in place of the empty one at the end. -/
lemma segments_join (p : Path) {q : Path} (hq : q.isAbsolute = false) :
    ∃ before idle, (∀ segment ∈ idle, segment = "") ∧ segments p.text = before ++ idle ∧
      segments (p.join q).text = before ++ (Text.pieces '/' q.text.toList).map String.ofList := by
  -- a leading slash is dropped before the text is cut, so the text after it is treated alike
  have body : ∀ cs : List Char, ∃ before idle : List String, (∀ segment ∈ idle, segment = "") ∧
      (Text.pieces '/' cs).map String.ofList = before ++ idle ∧
      (Text.pieces '/' (cs ++ Text.slashAfter cs ++ q.text.toList)).map String.ofList =
        before ++ (Text.pieces '/' q.text.toList).map String.ofList := by
    intro cs
    obtain ⟨before, idle, -, hidle, h1, h2⟩ := Text.pieces_below cs q.text.toList
    refine ⟨before.map String.ofList, idle.map String.ofList, ?_, by simp [h1], ?_⟩
    · intro segment hs
      obtain ⟨piece, hpiece, rfl⟩ := List.mem_map.mp hs
      rw [hidle piece hpiece]
    · rw [h2, List.map_append]
  have htext := Path.join_toList p hq
  simp only [segments, htext]
  cases hp : p.text.toList with
  | nil =>
    have hhead : q.text.toList.head? ≠ some '/' := by simpa [Path.isAbsolute] using hq
    simpa [Text.slashAfter, hhead] using body []
  | cons c cs =>
    by_cases hc : c = '/'
    · subst hc
      simpa [Text.slashAfter_cons] using body cs
    · simpa [hc] using body (c :: cs)

/-- One more name is one more segment, in place of the empty one at the end. -/
lemma segments_join_name (p : Path) (hname : IsPlainName name) :
    ∃ before idle, (∀ segment ∈ idle, segment = "") ∧ segments p.text = before ++ idle ∧
      segments (p.join ⟨name⟩).text = before ++ [name] := by
  have hjoin := segments_join p hname.isAbsolute_eq
  rw [Text.pieces_of_notMem hname.no_slash, List.map_singleton, String.ofList_toList] at hjoin
  exact hjoin

lemma startOf_join (p : Path) {q : Path} (hq : q.isAbsolute = false) (h : Location) :
    startOf (p.join q).text h = startOf p.text h := by
  have hhead : q.text.toList.head? ≠ some '/' := by simpa [Path.isAbsolute] using hq
  cases hp : p.text.toList with
  | nil => simp [startOf, Path.join_toList p hq, hp, Text.slashAfter, hhead]
  | cons c cs => simp [startOf, Path.join_toList p hq, hp]

lemma isAdmitted_of_join (hp : p.text ≠ "") (hname : IsPlainName name)
    (h : (p.join ⟨name⟩).IsAdmitted) : p.IsAdmitted := by
  have hparts : ∃ rest, (p.join ⟨name⟩).text = p.text ++ rest := by
    refine ⟨.ofList (Text.slashAfter p.text.toList ++ name.toList), ?_⟩
    apply String.toList_inj.mp
    rw [Path.join_toList p hname.isAbsolute_eq]
    simp
  obtain ⟨rest, hrest⟩ := hparts
  refine ⟨hp, fun hnull => h.no_null ?_, ?_⟩
  · rw [hrest, String.toList_append]
    exact List.mem_append_left _ hnull
  · have hsize := h.size_le
    rw [hrest, String.utf8ByteSize_append] at hsize
    omega

lemma walk_idle_end {idle : List String} (hidle : ∀ segment ∈ idle, segment = "" ∨ segment = ".")
    (hdir : t.entryAt? here = some .directory) : t.walk links here idle = .ok here := by
  induction idle with
  | nil => exact walk_nil t links here
  | cons segment rest ih =>
    rw [walk_of_idle hdir (hidle segment (by simp))]
    exact ih fun s hs => hidle s (List.mem_cons_of_mem _ hs)

lemma walk_idle_end_ok {idle : List String} (hidle : ∀ segment ∈ idle, segment = "" ∨ segment = ".")
    (h : t.walk links here idle = .ok l) : l = here := by
  cases idle with
  | nil => simpa [walk_nil] using h.symm
  | cons segment rest =>
    have hdir := walk_cons_ok h
    rw [walk_idle_end hidle hdir] at h
    exact (Except.ok.inj h).symm

/-- Idle segments at the end lead nowhere further. -/
lemma walk_before_idle {before idle : List String}
    (hidle : ∀ segment ∈ idle, segment = "" ∨ segment = ".")
    (h : t.walk links here (before ++ idle) = .ok l) : t.walk links here before = .ok l := by
  obtain ⟨left, -, hwalk⟩ := walk_append t links here before idle
  rw [hwalk] at h
  cases hb : t.walk links here before with
  | error reason => simp [hb, Except.bind] at h
  | ok k =>
    have hlast : t.walk left k idle = .ok l := by simpa [hb, Except.bind] using h
    rw [walk_idle_end_ok hidle hlast]

/-- What is joined to a path starts in a directory: the one that the path leads to, or the working
directory for the empty path, which leads nowhere itself. -/
structure LeadsInto (t : FileTree) (p : Path) (l : Location) : Prop where
  way : t.walk linkLimit (startOf p.text t.workingDirectory) (segments p.text) = .ok l
  directory : t.entryAt? l = some .directory

lemma leadsInto_of_find (hp : t.find p = .ok (l, .directory)) : t.LeadsInto p l := by
  obtain ⟨hlocate, hdir⟩ := find_eq_ok_iff.mp hp
  exact ⟨walk_of_locate hlocate, hdir⟩

lemma LeadsInto.find (hp : t.LeadsInto p l) (hadmitted : p.IsAdmitted) :
    t.find p = .ok (l, .directory) :=
  find_eq_ok_iff.mpr ⟨(locate_of_admitted t hadmitted).trans hp.way, hp.directory⟩

lemma LeadsInto.unique (hp : t.LeadsInto p l) (hp' : t.LeadsInto p k) : l = k :=
  Except.ok.inj (hp.way.symm.trans hp'.way)

/-- Where a path leads into a directory, its segments lead there without the empty ones at the end. -/
lemma LeadsInto.walk_before {before idle : List String} (hp : t.LeadsInto p l)
    (hidle : ∀ segment ∈ idle, segment = "") (hsegments : segments p.text = before ++ idle) :
    t.walk linkLimit (startOf p.text t.workingDirectory) before = .ok l := by
  have hway := hp.way
  rw [hsegments] at hway
  exact walk_before_idle (fun segment hs => .inl (hidle segment hs)) hway

/-- A directory's path, continued by a name, leads where the name leads from the directory, over the
links that are left. -/
lemma LeadsInto.exists_locate_join (hp : t.LeadsInto p l) (hname : IsPlainName name)
    (hjoin : (p.join ⟨name⟩).IsAdmitted) :
    ∃ left ≤ linkLimit, t.locate (p.join ⟨name⟩) = t.walk left l [name] := by
  obtain ⟨before, idle, hidle, h1, h2⟩ := segments_join_name p hname
  have hbefore := hp.walk_before hidle h1
  obtain ⟨left, hle, hwalk⟩ :=
    walk_append t linkLimit (startOf p.text t.workingDirectory) before [name]
  have hstart := startOf_join p hname.isAbsolute_eq
  refine ⟨left, hle, ?_⟩
  rw [locate_of_admitted t hjoin, hstart, h2, hwalk, hbefore, Except.bind]

/-- A directory's path, continued by a name that is no link's, leads to what has that name. -/
lemma locate_join (hp : t.LeadsInto p l) (hname : IsPlainName name)
    (hlink : ∀ target, t.entryAt? (l ++ [name]) ≠ some (.link target))
    (hjoin : (p.join ⟨name⟩).IsAdmitted) :
    t.locate (p.join ⟨name⟩) =
      if name.utf8ByteSize ≤ nameLimit then .ok (l ++ [name]) else .error .nameTooLong := by
  obtain ⟨left, -, hlocate⟩ := hp.exists_locate_join hname hjoin
  rw [hlocate, walk_name hp.directory hname hlink]

/-- Where the path leads into a directory, the path continued by the name of a directory in it leads into
that one, however long the path is. -/
lemma LeadsInto.join (hp : t.LeadsInto p l) (hname : IsEntryName name)
    (he : t.entryAt? (l ++ [name]) = some .directory) :
    t.LeadsInto (p.join ⟨name⟩) (l ++ [name]) := by
  obtain ⟨before, idle, hidle, h1, h2⟩ := segments_join_name p hname.toIsPlainName
  have hbefore := hp.walk_before hidle h1
  obtain ⟨left, -, hwalk⟩ :=
    walk_append t linkLimit (startOf p.text t.workingDirectory) before [name]
  have hlink : ∀ target, t.entryAt? (l ++ [name]) ≠ some (.link target) := by simp [he]
  refine ⟨?_, he⟩
  rw [startOf_join p hname.isAbsolute_eq, h2, hwalk, hbefore, Except.bind,
    walk_name hp.directory hname.toIsPlainName hlink, if_pos hname.size_le]

lemma LeadsInto.follow (ht : t.WellFormed) (hp : t.LeadsInto p l)
    (he : t.entryAt? (l ++ names) = some .directory) : t.LeadsInto (p.follow names) (l ++ names) := by
  induction names generalizing p l with
  | nil => rwa [List.append_nil]
  | cons name rest ih =>
    have hname := ht.isEntryName he name (by simp)
    have hsplit : l ++ name :: rest = l ++ [name] ++ rest := by simp
    rw [hsplit] at he ⊢
    have hentry : t.entryAt? (l ++ [name]) = some .directory := by
      by_cases hrest : rest = []
      · simpa [hrest] using he
      · exact ht.above hrest he
    exact ih (hp.join hname hentry) he

/-- A path continued by a name leads somewhere only if the path leads into a directory, from which the
name leads on. -/
lemma exists_leadsInto_of_join (hname : IsPlainName name)
    (h : t.walk linkLimit (startOf (p.join ⟨name⟩).text t.workingDirectory)
      (segments (p.join ⟨name⟩).text) = .ok k) :
    ∃ l left, t.LeadsInto p l ∧ t.walk left l [name] = .ok k := by
  obtain ⟨before, idle, hidle, h1, h2⟩ := segments_join_name p hname
  obtain ⟨left, -, hwalk⟩ :=
    walk_append t linkLimit (startOf (p.join ⟨name⟩).text t.workingDirectory) before [name]
  rw [h2, hwalk] at h
  cases hl : t.walk linkLimit (startOf (p.join ⟨name⟩).text t.workingDirectory) before with
  | error reason => simp [hl, Except.bind] at h
  | ok l =>
    -- the segments before the name lead somewhere, and from there the name leads on
    have hlast : t.walk left l [name] = .ok k := by simpa [hl, Except.bind] using h
    have hdir := walk_cons_ok hlast
    rw [startOf_join p hname.isAbsolute_eq] at hl
    obtain ⟨left', -, hwalk'⟩ :=
      walk_append t linkLimit (startOf p.text t.workingDirectory) before idle
    have hend : ∀ segment ∈ idle, segment = "" ∨ segment = "." :=
      fun segment hs => .inl (hidle segment hs)
    have hway : t.walk linkLimit (startOf p.text t.workingDirectory) (segments p.text) = .ok l := by
      rw [h1, hwalk', hl, Except.bind, walk_idle_end hend hdir]
    exact ⟨l, left, ⟨hway, hdir⟩, hlast⟩

/-- A path continued by a name leads somewhere only if the path leads into a directory. -/
lemma leadsInto_of_locate_join (hname : IsPlainName name)
    (h : t.locate (p.join ⟨name⟩) = .ok k) : ∃ l, t.LeadsInto p l := by
  obtain ⟨l, -, hl, -⟩ := exists_leadsInto_of_join hname (walk_of_locate h)
  exact ⟨l, hl⟩

/-- A path continued by a name leads somewhere only if the path leads to a directory. -/
lemma find_of_find_join (hp : p.text ≠ "") (hname : IsPlainName name)
    (h : t.find (p.join ⟨name⟩) = .ok (k, e)) : ∃ l, t.find p = .ok (l, .directory) := by
  obtain ⟨hlocate, -⟩ := find_eq_ok_iff.mp h
  obtain ⟨l, hl⟩ := leadsInto_of_locate_join hname hlocate
  exact ⟨l, hl.find (isAdmitted_of_join hp hname (isAdmitted_of_locate hlocate))⟩

/-- What a directory's path, continued by a name that is no link's, leads to. -/
lemma find_join_iff (hp : t.find p = .ok (l, .directory)) (hname : IsPlainName name)
    (hlink : ∀ target, t.entryAt? (l ++ [name]) ≠ some (.link target)) :
    t.find (p.join ⟨name⟩) = .ok (k, e) ↔
      (p.join ⟨name⟩).IsAdmitted ∧ name.utf8ByteSize ≤ nameLimit ∧ k = l ++ [name] ∧
        t.entryAt? (l ++ [name]) = some e := by
  rw [find_eq_ok_iff]
  constructor
  · rintro ⟨hlocate, he⟩
    have hjoin := isAdmitted_of_locate hlocate
    rw [locate_join (leadsInto_of_find hp) hname hlink hjoin] at hlocate
    split at hlocate
    · next hsize =>
      obtain rfl := Except.ok.inj hlocate
      exact ⟨hjoin, hsize, rfl, he⟩
    · cases hlocate
  · rintro ⟨hjoin, hsize, rfl, he⟩
    rw [locate_join (leadsInto_of_find hp) hname hlink hjoin, if_pos hsize]
    exact ⟨rfl, he⟩

lemma text_ne_empty_of_find (h : t.find p = .ok (l, e)) : p.text ≠ "" :=
  (isAdmitted_of_find h).ne_empty

lemma text_follow_ne_empty (hp : p.text ≠ "") (hn : ∀ n ∈ names, IsPlainName n) :
    (p.follow names).text ≠ "" := by
  have hparts : (p.follow names).parts ≠ [] := by
    rw [Path.parts_follow p hn]
    simp [Path.parts_ne_nil hp]
  intro hempty
  apply hparts
  have : p.follow names = ⟨""⟩ := congrArg Path.mk hempty
  rw [this]
  decide

/-- Without links below a directory, names lead down from it one by one. -/
lemma find_follow (hroot : t.find root = .ok (l, .directory)) (hlinks : t.LinkFreeBelow l)
    (hn : ∀ n ∈ names, IsPlainName n) (h : t.find (root.follow names) = .ok (k, e)) :
    k = l ++ names ∧ t.entryAt? (l ++ names) = some e := by
  -- from the last name upwards: its path leads on from the directory above it
  induction names using List.reverseRecOn generalizing k e with
  | nil =>
    rw [Path.follow_nil, hroot] at h
    cases h
    simpa using (find_eq_ok_iff.mp hroot).2
  | append_singleton front last ih =>
    have hfront : ∀ n ∈ front, IsPlainName n := fun n hmem => hn n (by simp [hmem])
    have hlast := hn last (by simp)
    rw [Path.follow_concat] at h
    have hne := text_follow_ne_empty (text_ne_empty_of_find hroot) hfront
    obtain ⟨above, habove⟩ := find_of_find_join hne hlast h
    obtain ⟨rfl, -⟩ := ih hfront habove
    have hlink : ∀ target, t.entryAt? (l ++ front ++ [last]) ≠ some (.link target) := by
      intro target
      rw [List.append_assoc]
      exact hlinks (front ++ [last]) target
    obtain ⟨-, -, rfl, he⟩ := (find_join_iff habove hlast hlink).mp h
    exact ⟨by simp, by simpa using he⟩

/-! ## Looking -/

section
variable {bytes : ByteArray} {seconds : Int64} {text : String}

lemma isDirectory_iff : t.isDirectory p = true ↔ ∃ l, t.find p = .ok (l, .directory) := by
  unfold isDirectory
  cases hp : t.find p with
  | error reason => simp
  | ok found =>
    obtain ⟨l, e⟩ := found
    cases e <;> simp [Entry.isDirectory]

lemma listDirectory_of_find (h : t.find p = .ok (l, .directory)) :
    t.listDirectory p = .ok (t.children l) := by
  unfold listDirectory
  rw [h]
  rfl

lemma find_of_listDirectory (h : t.listDirectory p = .ok names) :
    ∃ l, t.find p = .ok (l, .directory) := by
  unfold listDirectory at h
  cases hp : t.find p with
  | error reason =>
    rw [hp] at h
    cases h
  | ok found =>
    obtain ⟨l, e⟩ := found
    rw [hp] at h
    cases e with
    | directory => exact ⟨l, rfl⟩
    | file => cases h
    | link => cases h

lemma isFile_iff : t.isFile p = true ↔
    ∃ l bytes seconds, t.find p = .ok (l, .file bytes seconds) := by
  unfold isFile
  cases hp : t.find p with
  | error reason => simp
  | ok found =>
    obtain ⟨l, e⟩ := found
    cases e <;> simp [Entry.isFile]

lemma readText_of_find (h : t.find p = .ok (l, .file bytes seconds)) :
    t.readText p =
      match String.fromUTF8? bytes with
      | some text => .ok text
      | none => .error .notText := by
  unfold readText readBytes
  rw [h]
  rfl

lemma readText_eq_ok_iff : t.readText p = .ok text ↔
    ∃ k bytes seconds, t.find p = .ok (k, .file bytes seconds) ∧
      String.fromUTF8? bytes = some text := by
  constructor
  · intro h
    unfold readText readBytes at h
    cases hp : t.find p with
    | error e =>
      rw [hp] at h
      cases h
    | ok found =>
      obtain ⟨k, e⟩ := found
      cases e with
      | file bytes seconds =>
        refine ⟨k, bytes, seconds, rfl, ?_⟩
        simp only [hp, bind, Except.bind] at h
        split at h
        · next heq => rw [heq, Except.ok.inj h]
        · cases h
      | directory =>
        rw [hp] at h
        cases h
      | link =>
        rw [hp] at h
        cases h
  · rintro ⟨k, bytes, seconds, hfind, htext⟩
    rw [readText_of_find hfind, htext]

end

/-! ## Trees with the same ways -/

/-- Neither a directory nor a link stands at a location, so a file may. -/
structure Vacant (t : FileTree) (l : Location) : Prop where
  no_directory : t.entryAt? l ≠ some .directory
  no_link : ∀ target, t.entryAt? l ≠ some (.link target)

/-- No directory and no link stands at some places of a tree. Its directories and links stand in
another tree too, which has no other links, except at these places. -/
structure KeepsWaysOff (off : List Location) (t t' : FileTree) : Prop where
  vacant : ∀ m ∈ off, t.Vacant m
  directory : ∀ m ∉ off, t.entryAt? m = some .directory → t'.entryAt? m = some .directory
  link : ∀ m ∉ off, ∀ target,
    t'.entryAt? m = some (.link target) ↔ t.entryAt? m = some (.link target)

/-- Trees in which the same stands everywhere else, files aside, have the same ways off some places. -/
lemma keepsWaysOff_of_agree {off : List Location} (hvacant : ∀ m ∈ off, t.Vacant m)
    (hagree : ∀ m ∉ off, t'.entryAt? m = t.entryAt? m ∨ t.Vacant m ∧ t'.Vacant m) :
    KeepsWaysOff off t t' where
  vacant := hvacant
  directory m hm hdir := by
    rcases hagree m hm with heq | ⟨hfree, -⟩
    · rw [heq, hdir]
    · exact absurd hdir hfree.no_directory
  link m hm target := by
    rcases hagree m hm with heq | ⟨hfree, hfree'⟩
    · rw [heq]
    · exact iff_of_false (hfree'.no_link target) (hfree.no_link target)

/-- A way that does not end at one of the places does not go over them either. -/
lemma KeepsWaysOff.walk {off : List Location} (h : KeepsWaysOff off t t') {path : List String}
    (hl : l ∉ off) (hwalk : t.walk links here path = .ok l) : t'.walk links here path = .ok l := by
  have hdirectory : ∀ m, t.entryAt? m = some .directory → t'.entryAt? m = some .directory := by
    intro m hm
    exact h.directory m (fun hoff => (h.vacant m hoff).no_directory hm) hm
  fun_induction t.walk links here path with
  | case1 links here => rwa [walk_nil]
  | case2 => cases hwalk
  | case3 links here segment rest hdir hidle ih =>
    rw [walk_of_idle (hdirectory _ hdir) hidle]
    exact ih hwalk
  | case4 links here rest hdir _ ih =>
    rw [walk_up (hdirectory _ hdir)]
    exact ih hwalk
  | case5 => cases hwalk
  | case6 => cases hwalk
  | case7 here segment rest hdir hidle hup hlong target links hlink ih =>
    have hplace : here ++ [segment] ∉ off := fun hoff => (h.vacant _ hoff).no_link target hlink
    rw [walk_of_link (hdirectory _ hdir) hidle hup hlong ((h.link _ hplace _).mpr hlink)]
    exact ih hwalk
  | case8 here segment rest hdir hidle hup hlong links hzero hsucc ih =>
    -- from one of the places, where no directory stands, no segment leads on
    have hplace : here ++ [segment] ∉ off := by
      intro hoff
      cases rest with
      | nil =>
        rw [walk_nil] at hwalk
        exact hl (Except.ok.inj hwalk ▸ hoff)
      | cons next rest =>
        exact (h.vacant _ hoff).no_directory (walk_cons_ok hwalk)
    rw [walk_of_entry (hdirectory _ hdir) hidle hup hlong]
    · exact ih hwalk
    · -- there are no other links, and this was none
      intro target hlink
      exact not_link_of_cases hzero hsucc target ((h.link _ hplace _).mp hlink)
  | case9 => cases hwalk

lemma KeepsWaysOff.leadsInto {off : List Location} (h : KeepsWaysOff off t t')
    (hworking : t'.workingDirectory = t.workingDirectory) (hl : l ∉ off) (hp : t.LeadsInto p l) :
    t'.LeadsInto p l := by
  refine ⟨?_, h.directory l hl hp.directory⟩
  rw [hworking]
  exact h.walk hl hp.way

/-- The directories and the links of a tree stand in another too, which has no other links. -/
structure KeepsWays (t t' : FileTree) : Prop where
  workingDirectory : t'.workingDirectory = t.workingDirectory
  directory : ∀ m, t.entryAt? m = some .directory → t'.entryAt? m = some .directory
  link : ∀ m target, t'.entryAt? m = some (.link target) ↔ t.entryAt? m = some (.link target)

lemma KeepsWays.walk (h : KeepsWays t t') {path : List String}
    (hwalk : t.walk links here path = .ok l) : t'.walk links here path = .ok l := by
  have hoff : KeepsWaysOff [] t t' :=
    ⟨fun _ hm => absurd hm List.not_mem_nil, fun m _ => h.directory m, fun m _ => h.link m⟩
  exact hoff.walk List.not_mem_nil hwalk

lemma KeepsWays.locate (h : KeepsWays t t') (hp : t.locate p = .ok l) : t'.locate p = .ok l := by
  have hadmitted := isAdmitted_of_locate hp
  rw [locate_of_admitted t hadmitted] at hp
  rw [locate_of_admitted t' hadmitted, h.workingDirectory]
  exact h.walk hp

/-- Where a path led into a directory it still does. -/
lemma KeepsWays.leadsInto (h : KeepsWays t t') (hp : t.LeadsInto p l) : t'.LeadsInto p l := by
  refine ⟨?_, h.directory l hp.directory⟩
  rw [h.workingDirectory]
  exact h.walk hp.way

/-- Where a path led to a directory it still does. -/
lemma KeepsWays.find_directory (h : KeepsWays t t') (hp : t.find p = .ok (l, .directory)) :
    t'.find p = .ok (l, .directory) := by
  obtain ⟨hlocate, hdir⟩ := find_eq_ok_iff.mp hp
  exact find_eq_ok_iff.mpr ⟨h.locate hlocate, h.directory _ hdir⟩

lemma KeepsWays.linkFreeBelow (h : KeepsWays t t') (hlinks : t.LinkFreeBelow l) :
    t'.LinkFreeBelow l :=
  fun m target hlink => hlinks m target ((h.link _ _).mp hlink)

/-! ## Projects -/

/-- A tree in which a path leads to a directory with no links below it. -/
structure IsProject (t : FileTree) (root : Path) (l : Location) : Prop where
  wellFormed : t.WellFormed
  root : t.find root = .ok (l, .directory)
  linkFree : t.LinkFreeBelow l

/-- A directory of the project stands where its names say. -/
lemma IsProject.location (ht : t.IsProject root l) (hn : ∀ n ∈ names, IsPlainName n)
    (h : t.find (root.follow names) = .ok (k, .directory)) : k = l ++ names :=
  (find_follow ht.root ht.linkFree hn h).1

/-- Where names lead into a directory of the project, it stands where they say. -/
lemma IsProject.eq_of_leadsInto (ht : t.IsProject root l) (hn : ∀ n ∈ names, IsPlainName n)
    (h : t.LeadsInto (root.follow names) k) : k = l ++ names := by
  induction names using List.reverseRecOn generalizing k with
  | nil =>
    rw [Path.follow_nil] at h
    rw [List.append_nil]
    exact h.unique (leadsInto_of_find ht.root)
  | append_singleton front last ih =>
    have hfront : ∀ n ∈ front, IsPlainName n := fun n hmem => hn n (by simp [hmem])
    rw [Path.follow_concat] at h
    obtain ⟨m, left, hm, hlast⟩ := exists_leadsInto_of_join (hn last (by simp)) h.way
    obtain rfl := ih hfront hm
    have hlink : ∀ target, t.entryAt? (l ++ front ++ [last]) ≠ some (.link target) := by
      intro target
      rw [List.append_assoc]
      exact ht.linkFree (front ++ [last]) target
    rw [walk_name hm.directory (hn last (by simp)) hlink] at hlast
    split at hlast
    · rw [← List.append_assoc]
      exact (Except.ok.inj hlast).symm
    · cases hlast

lemma IsProject.linkFree_names (ht : t.IsProject root l) (names : List String) :
    t.LinkFreeBelow (l ++ names) := by
  intro m target
  rw [List.append_assoc]
  exact ht.linkFree (names ++ m) target

end FileTree

end DirectoryNotes
