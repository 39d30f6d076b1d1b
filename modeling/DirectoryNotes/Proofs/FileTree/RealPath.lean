import DirectoryNotes.Proofs.FileTree.Canonical
import DirectoryNotes.Proofs.Path.Relative
import DirectoryNotes.Proofs.Text.Lines

/-!
# Resolved paths

A path that resolves comes down to the path of a location, with no link on the way:

* `ResolvesTo`: what it takes. `realPath_eq_ok_iff` says that nothing else does;
* `walk_down`, `find_pathOf`: names lead down to the entry that they name, so a resolved path leads
  where it says. `locate_join_pathOf` continues it by a name that may be a link's;
* `ResolvesTo.follow`: what lies below a resolved path is what its names lead to;
* `pathOf_relativeTo?_iff`, `pathOf_parts_prefix_iff`: resolved paths compare as their locations do.
-/

namespace DirectoryNotes

open FileTree

namespace FileTree

variable {t t' : FileTree} {l k here : Location} {e e' : Entry} {p q root : Path}
  {names : List String} {name : String} {links : Nat}

/-! ## Names without links -/

/-- Following segments never ends at a link. -/
lemma not_link_of_walk (ht : t.WellFormed) {path : List String} {target : String}
    (hhere : t.entryAt? here ≠ some (.link target)) (h : t.walk links here path = .ok l) :
    t.entryAt? l ≠ some (.link target) := by
  fun_induction t.walk links here path with
  | case1 links here =>
    obtain rfl := Except.ok.inj h
    exact hhere
  | case2 => cases h
  | case3 links here segment rest hdir hidle ih => exact ih hhere h
  | case4 links here rest hdir _ ih =>
    refine ih ?_ h
    -- above a directory there is a directory
    rcases List.eq_nil_or_concat here with rfl | ⟨front, last, rfl⟩
    · simp
    · rw [List.concat_eq_append, List.dropLast_concat]
      rw [List.concat_eq_append] at hdir
      simp [ht.parent hdir]
  | case5 => cases h
  | case6 => cases h
  | case7 here segment rest hdir hidle hup hlong other links hlink ih =>
    refine ih ?_ h
    unfold startOf
    split
    · simp
    · simp [hdir]
  | case8 here segment rest hdir hidle hup hlong links hzero hsucc ih =>
    exact ih (not_link_of_cases hzero hsucc target) h
  | case9 => cases h

/-- Names lead down to the entry that they name, unless it is a link. -/
lemma walk_down (ht : t.WellFormed) (he : t.entryAt? (here ++ names) = some e)
    (hlink : ∀ target, e ≠ .link target) : t.walk links here names = .ok (here ++ names) := by
  induction names generalizing here with
  | nil => rw [walk_nil, List.append_nil]
  | cons name rest ih =>
    have hname := ht.isEntryName he name (by simp)
    have hdir : t.entryAt? here = some .directory := ht.above (List.cons_ne_nil name rest) he
    have hsplit : here ++ name :: rest = here ++ [name] ++ rest := by simp
    rw [hsplit] at he ⊢
    have hnext : ∀ target, t.entryAt? (here ++ [name]) ≠ some (.link target) := by
      intro target heq
      by_cases hrest : rest = []
      · rw [hrest, List.append_nil, heq, Option.some.injEq] at he
        exact hlink target he.symm
      · rw [ht.above hrest he] at heq
        cases heq
    rw [walk_of_entry hdir hname.not_idle hname.ne_up (Nat.not_lt.mpr hname.size_le) hnext]
    exact ih he

/-- Where every name is a directory's, the segments after the names go on from the last of them. -/
lemma walk_through {rest : List String} (hn : ∀ n ∈ names, IsEntryName n)
    (hdirs : ∀ front, front <+: names → t.entryAt? (here ++ front) = some .directory) :
    t.walk links here (names ++ rest) = t.walk links (here ++ names) rest := by
  induction names generalizing here with
  | nil => simp
  | cons name more ih =>
    have hname := hn name (by simp)
    have hdir : t.entryAt? here = some .directory := by simpa using hdirs [] List.nil_prefix
    have hnext : t.entryAt? (here ++ [name]) = some .directory := hdirs [name] (by simp)
    rw [List.cons_append, walk_of_entry hdir hname.not_idle hname.ne_up
      (Nat.not_lt.mpr hname.size_le) (by simp [hnext]), ih fun n hmem => hn n (by simp [hmem])]
    · simp
    · intro front hfront
      rw [List.append_assoc]
      exact hdirs (name :: front) (by simpa using hfront)

lemma segments_pathOf (hne : l ≠ []) (hn : ∀ n ∈ l, IsPlainName n) :
    segments (pathOf l).text = l := by
  have htext : (pathOf l).text.toList = '/' :: (Path.ofNames l).text.toList := by
    simp [pathOf, Path.ofNames]
  have hslash : ∀ x ∈ l.map String.toList, '/' ∉ x := by
    intro x hx
    obtain ⟨n, hmem, rfl⟩ := List.mem_map.mp hx
    exact (hn n hmem).no_slash
  simp only [segments, htext, List.head?_cons, if_true, List.drop_one, List.tail_cons,
    Path.ofNames_toList]
  rw [Text.pieces_intercalate (by simpa using hne) hslash, List.map_map]
  simp [Function.comp_def]

lemma segments_ne_nil (text : String) : segments text ≠ [] := by
  unfold segments
  simp [Text.pieces_ne_nil]

lemma startOf_pathOf (l here : Location) : startOf (pathOf l).text here = [] := by
  simp [startOf, pathOf]

/-! ## Resolving -/

/-- A path resolves to an entry: its segments lead there, and the path of the place is not too
long. -/
structure ResolvesTo (t : FileTree) (p : Path) (l : Location) (e : Entry) : Prop where
  ne_empty : p.text ≠ ""
  no_null : '\x00' ∉ p.text.toList
  walk : t.walk linkLimit (startOf p.text t.workingDirectory) (segments p.text) = .ok l
  entry : t.entryAt? l = some e
  size_le : (pathOf l).text.utf8ByteSize ≤ pathLimit

theorem realPath_eq_ok_iff : t.realPath p = .ok q ↔ ∃ l e, t.ResolvesTo p l e ∧ q = pathOf l := by
  constructor
  · intro h
    unfold realPath at h
    split at h
    · cases h
    · next hempty =>
      split at h
      · cases h
      · next hnull =>
        cases hwalk : t.walk linkLimit (startOf p.text t.workingDirectory) (segments p.text) with
        | error reason =>
          rw [hwalk] at h
          cases h
        | ok l =>
          simp only [hwalk, bind, Except.bind] at h
          split at h
          · cases h
          · next hsize =>
            cases he : t.entryAt? l with
            | none =>
              rw [he] at h
              cases h
            | some e =>
              rw [he] at h
              refine ⟨l, e, ⟨?_, ?_, hwalk, he, Nat.not_lt.mp hsize⟩, (Except.ok.inj h).symm⟩
              · simpa [Path.isEmpty] using hempty
              · simpa using hnull
  · rintro ⟨l, e, h, rfl⟩
    have hempty : p.isEmpty = false := by simpa [Path.isEmpty] using h.ne_empty
    have hnull : p.text.toList.contains '\x00' = false := by simpa using h.no_null
    have hsize : ¬(pathOf l).text.utf8ByteSize > pathLimit := Nat.not_lt.mpr h.size_le
    simp only [realPath, hempty, hnull, h.walk, h.entry, hsize, bind, Except.bind, if_false,
      Bool.false_eq_true]

/-- A path leads to one place only. -/
lemma ResolvesTo.unique (h : t.ResolvesTo p l e) (h' : t.ResolvesTo p k e') : l = k ∧ e = e' := by
  obtain rfl := Except.ok.inj (h.walk.symm.trans h'.walk)
  exact ⟨rfl, Option.some.inj (h.entry.symm.trans h'.entry)⟩

/-- What a path resolves to has a path. -/
lemma text_ne_empty_of_realPath (h : t.realPath p = .ok q) : q.text ≠ "" := by
  obtain ⟨l, -, -, rfl⟩ := realPath_eq_ok_iff.mp h
  simp [pathOf]

lemma ResolvesTo.realPath (h : t.ResolvesTo p l e) : t.realPath p = .ok (pathOf l) :=
  realPath_eq_ok_iff.mpr ⟨l, e, h, rfl⟩

/-- What a path leads to it also resolves to. -/
lemma resolvesTo_of_find (h : t.find p = .ok (l, e))
    (hsize : (pathOf l).text.utf8ByteSize ≤ pathLimit) : t.ResolvesTo p l e := by
  obtain ⟨hlocate, he⟩ := find_eq_ok_iff.mp h
  have hadmitted := isAdmitted_of_locate hlocate
  rw [locate_of_admitted t hadmitted] at hlocate
  exact ⟨hadmitted.ne_empty, hadmitted.no_null, hlocate, he, hsize⟩

/-- What a path leads to is what it resolves to. -/
lemma resolvesTo_of_realPath (h : t.realPath p = .ok q) (hfind : t.find p = .ok (l, e)) :
    t.ResolvesTo p l e ∧ q = pathOf l := by
  obtain ⟨k, e', hk, rfl⟩ := realPath_eq_ok_iff.mp h
  obtain ⟨hlocate, he⟩ := find_eq_ok_iff.mp hfind
  rw [locate_of_admitted t (isAdmitted_of_locate hlocate), hk.walk] at hlocate
  obtain rfl := Except.ok.inj hlocate
  obtain rfl := Option.some.inj (hk.entry.symm.trans he)
  exact ⟨hk, rfl⟩

/-- Where a path leads somewhere, only the path of the place is in the way of resolving it. -/
lemma realPath_of_find (h : t.find p = .ok (l, e)) : t.realPath p =
    if (pathOf l).text.utf8ByteSize > pathLimit then .error .nameTooLong else .ok (pathOf l) := by
  obtain ⟨hlocate, he⟩ := find_eq_ok_iff.mp h
  have hadmitted := isAdmitted_of_locate hlocate
  rw [locate_of_admitted t hadmitted] at hlocate
  have hempty : p.isEmpty = false := by simpa [Path.isEmpty] using hadmitted.ne_empty
  have hnull : p.text.toList.contains '\x00' = false := by simpa using hadmitted.no_null
  simp only [realPath, hempty, hnull, hlocate, he, bind, Except.bind, if_false, Bool.false_eq_true]

lemma realPath_slash (t : FileTree) : t.realPath ⟨"/"⟩ = .ok ⟨"/"⟩ :=
  (resolvesTo_of_find (find_slash t) (by decide +kernel)).realPath

lemma startOf_of_isAbsolute (hp : p.isAbsolute = true) (here : Location) :
    startOf p.text here = [] := by
  have hslash : p.text.toList.head? = some '/' := by simpa [Path.isAbsolute] using hp
  rw [startOf, if_pos hslash]

/-- A path resolves to no link. -/
lemma ResolvesTo.not_link (h : t.ResolvesTo p l e) (ht : t.WellFormed) (target : String) :
    e ≠ .link target := by
  have hwalk := h.walk
  obtain ⟨first, rest, hsegments⟩ : ∃ first rest, segments p.text = first :: rest :=
    List.exists_cons_of_ne_nil (segments_ne_nil p.text)
  rw [hsegments] at hwalk
  -- the first segment leads on from a directory
  have hlink : t.entryAt? l ≠ some (.link target) :=
    not_link_of_walk ht (by simp [walk_cons_ok hwalk]) hwalk
  rw [h.entry] at hlink
  exact fun heq => hlink (congrArg some heq)

/-- The path of a place leads there. -/
lemma find_pathOf (ht : t.WellFormed) (he : t.entryAt? l = some e) (hlink : ∀ target, e ≠ .link target)
    (hsize : (pathOf l).text.utf8ByteSize ≤ pathLimit) : t.find (pathOf l) = .ok (l, e) := by
  by_cases hl : l = []
  · subst hl
    obtain rfl := Option.some.inj he
    exact find_slash t
  · have hn := ht.isEntryName he
    have htext : (pathOf l).text.toList = '/' :: (Path.ofNames l).text.toList := by
      simp [pathOf, Path.ofNames]
    have hadmitted : (pathOf l).IsAdmitted := by
      refine ⟨?_, ?_, hsize⟩
      · simp [pathOf]
      · rw [htext, List.mem_cons, not_or]
        refine ⟨by decide, fun hmem => ?_⟩
        rcases Text.mem_join hmem with hnull | ⟨name, hname, hnull⟩
        · exact absurd hnull (by decide)
        · exact (hn name hname).no_null hnull
    refine find_eq_ok_iff.mpr ⟨?_, he⟩
    rw [locate_of_admitted t hadmitted, startOf_pathOf,
      segments_pathOf hl fun n hmem => (hn n hmem).toIsPlainName]
    exact walk_down ht he hlink

/-- What a path resolves to resolves to itself. -/
lemma ResolvesTo.itself (h : t.ResolvesTo p l e) (ht : t.WellFormed) :
    t.ResolvesTo (pathOf l) l e :=
  resolvesTo_of_find (find_pathOf ht h.entry (h.not_link ht) h.size_le) h.size_le

/-- The path of a directory, continued by a name, leads where the name leads from the directory. -/
lemma locate_join_pathOf (hn : ∀ n ∈ l ++ [name], IsEntryName n)
    (hdirs : ∀ front, front <+: l → t.entryAt? front = some .directory)
    (hjoin : ((pathOf l).join ⟨name⟩).IsAdmitted) :
    t.locate ((pathOf l).join ⟨name⟩) = t.walk linkLimit l [name] := by
  have hplain : ∀ n ∈ l ++ [name], IsPlainName n := fun n hmem => (hn n hmem).toIsPlainName
  have hpath : (pathOf l).join ⟨name⟩ = pathOf (l ++ [name]) := by
    rw [pathOf_append hplain, Path.follow_cons, Path.follow_nil]
  rw [locate_of_admitted t hjoin, hpath, startOf_pathOf, segments_pathOf (by simp) hplain,
    walk_through (fun n hmem => hn n (by simp [hmem])) (by simpa using hdirs), List.nil_append]

/-! ## Comparing -/

lemma parts_pathOf (hl : ∀ n ∈ l, IsPlainName n) : (pathOf l).parts = .root :: l.map .name := by
  have hslash : (⟨"/"⟩ : Path).parts = [.root] := by decide
  rw [pathOf_eq_follow hl, Path.parts_follow _ hl, hslash, List.singleton_append]

section
variable (hl : ∀ n ∈ l, IsPlainName n) (hk : ∀ n ∈ k, IsPlainName n)
include hl hk

/-- The path of a location comes first in that of another where the location does. -/
lemma pathOf_parts_prefix_iff : (pathOf l).parts <+: (pathOf k).parts ↔ l <+: k := by
  rw [parts_pathOf hl, parts_pathOf hk, List.cons_prefix_cons]
  simp only [true_and]
  exact List.prefix_map_iff_of_injective fun _ _ heq => PathPart.name.inj heq

lemma parts_pathOf_inj (h : (pathOf l).parts = (pathOf k).parts) : l = k := by
  rw [parts_pathOf hl, parts_pathOf hk, List.cons.injEq] at h
  exact (List.map_inj_right fun _ _ heq => PathPart.name.inj heq).mp h.2

/-- What is left of the path of a location below that of another are the names between them. -/
lemma pathOf_relativeTo?_iff {rest : Path} : (pathOf k).relativeTo? (pathOf l) = some rest ↔
    ∃ names, k = l ++ names ∧ rest = .ofNames names := by
  have htext : (pathOf l).text ≠ "" := by simp [pathOf]
  have hleft : ∀ names, k = l ++ names →
      (pathOf k).relativeTo? (pathOf l) = some (.ofNames names) := by
    rintro names rfl
    rw [pathOf_append hk, Path.relativeTo?_follow htext]
    exact fun n hmem => hk n (List.mem_append_right _ hmem)
  constructor
  · intro h
    have hparts := (Path.exists_relativeTo?_iff htext).mp ⟨rest, h⟩
    obtain ⟨names, rfl⟩ := (pathOf_parts_prefix_iff hl hk).mp hparts
    rw [hleft names rfl] at h
    exact ⟨names, rfl, (Option.some.inj h).symm⟩
  · rintro ⟨names, hnames, rfl⟩
    exact hleft names hnames

end

/-- Below a resolved path, names lead to the entry that they name, unless it is a link. -/
lemma ResolvesTo.follow (h : t.ResolvesTo root l e) (ht : t.WellFormed)
    (he : t.entryAt? (l ++ names) = some e') (hlink : ∀ target, e' ≠ .link target)
    (hsize : (pathOf (l ++ names)).text.utf8ByteSize ≤ pathLimit) :
    t.ResolvesTo (root.follow names) (l ++ names) e' := by
  have hnames : ∀ n ∈ names, IsEntryName n := fun n hmem =>
    ht.isEntryName he n (List.mem_append_right _ hmem)
  have hplain : ∀ n ∈ names, IsPlainName n := fun n hmem => (hnames n hmem).toIsPlainName
  by_cases hne : names = []
  · subst hne
    rw [List.append_nil] at he hsize ⊢
    exact ⟨h.ne_empty, h.no_null, h.walk, he, hsize⟩
  · have hrelative := Path.isAbsolute_ofNames hplain
    have hpieces : (Text.pieces '/' (Path.ofNames names).text.toList).map String.ofList = names := by
      rw [Path.ofNames_toList, Text.pieces_intercalate (by simpa using hne), List.map_map]
      · simp [Function.comp_def]
      · intro x hx
        obtain ⟨n, hmem, rfl⟩ := List.mem_map.mp hx
        exact (hplain n hmem).no_slash
    obtain ⟨before, idle, hidle, h1, h2⟩ := segments_join root hrelative
    have hwalk := h.walk
    rw [h1] at hwalk
    refine ⟨text_follow_ne_empty h.ne_empty hplain, ?_, ?_, he, hsize⟩
    · rw [← Path.join_ofNames root hne hplain, Path.join_toList root hrelative]
      have hslash : '\x00' ∉ Text.slashAfter root.text.toList := by
        unfold Text.slashAfter
        split <;> simp
      have hnull : '\x00' ∉ (Path.ofNames names).text.toList := by
        intro hmem
        rcases Text.mem_join hmem with hmem | ⟨name, hname, hmem⟩
        · exact absurd hmem (by decide)
        · exact (hnames name hname).no_null hmem
      simp [h.no_null, hslash, hnull]
    · obtain ⟨left, -, happend⟩ := walk_append t linkLimit
        (startOf root.text t.workingDirectory) before names
      rw [← Path.join_ofNames root hne hplain, startOf_join root hrelative, h2, hpieces,
        happend, walk_before_idle (fun segment hs => .inl (hidle segment hs)) hwalk]
      exact walk_down ht he hlink

end FileTree

end DirectoryNotes
