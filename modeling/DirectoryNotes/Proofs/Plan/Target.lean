import DirectoryNotes.Proofs.Command.Failure

/-!
# Paths that were given

A path that was given may go anywhere: over links, upward, or from the slash. What counts is where it
leads, and it is taken for a directory of the project only if it leads to one:

* `resolveTarget_eq_ok_iff`: the paths that are taken, by the locations that they and the root
  resolve to;
* `resolveTarget_follow`: the directory that is made of such a path is taken for itself;
* `exists_pathOf_of_resolveTarget`: from a resolved root it is the path of a location;
* `resolveTarget_confined`: what becomes of every path.
-/

namespace DirectoryNotes

open FileTree FileError

variable {t : FileTree} {root path top d p : Path} {l : Location} {e : Entry} {names : List String}
  {reason : String} {f : FileError}

/-! ## By locations -/

/-- The paths that are taken for a directory of the project, and the directory. -/
theorem resolveTarget_eq_ok_iff (ht : t.WellFormed) : resolveTarget t root path = .ok d ↔
    ∃ l names e e', t.ResolvesTo root l e ∧ t.ResolvesTo (root.join path) (l ++ names) e' ∧
      t.isDirectory (pathOf (l ++ names)) = true ∧ d = root.follow names := by
  have hplain : ∀ {k e}, t.entryAt? k = some e → ∀ n ∈ k, IsPlainName n :=
    fun he n hmem => (ht.isEntryName he n hmem).toIsPlainName
  unfold resolveTarget
  simp only [bind_eq_ok_iff, lift_eq_ok_iff]
  constructor
  · rintro ⟨top, htop, place, hplace, h⟩
    obtain ⟨l, e, hl, rfl⟩ := realPath_eq_ok_iff.mp htop
    obtain ⟨k, e', hk, rfl⟩ := realPath_eq_ok_iff.mp hplace
    cases hrest : (pathOf k).relativeTo? (pathOf l) with
    | none =>
      rw [hrest] at h
      cases h
    | some rest =>
      obtain ⟨names, rfl, rfl⟩ :=
        (pathOf_relativeTo?_iff (hplain hl.entry) (hplain hk.entry)).mp hrest
      rw [hrest] at h
      dsimp only at h
      split at h
      · cases h
      · next hdirectory =>
        obtain rfl := Except.ok.inj h
        refine ⟨l, names, e, e', hl, hk, by simpa using hdirectory, ?_⟩
        exact Path.join_ofNames_ite root fun n hmem =>
          hplain hk.entry n (List.mem_append_right _ hmem)
  · rintro ⟨l, names, e, e', hl, hk, hdirectory, rfl⟩
    refine ⟨pathOf l, hl.realPath, pathOf (l ++ names), hk.realPath, ?_⟩
    have hnames : ∀ n ∈ names, IsPlainName n :=
      fun n hmem => hplain hk.entry n (List.mem_append_right _ hmem)
    rw [(pathOf_relativeTo?_iff (hplain hl.entry) (hplain hk.entry)).mpr ⟨names, rfl, rfl⟩]
    simp only [hdirectory, Bool.not_true, Bool.false_eq_true, if_false, Except.ok.injEq]
    exact Path.join_ofNames_ite root hnames

/-- A path that was given stands for the root continued by names. -/
lemma resolveTarget_eq_follow (ht : t.WellFormed) (h : resolveTarget t root path = .ok d) :
    ∃ names, (∀ n ∈ names, IsPlainName n) ∧ d = root.follow names := by
  obtain ⟨l, names, e, e', hl, hk, -, rfl⟩ := (resolveTarget_eq_ok_iff ht).mp h
  exact ⟨names, fun n hmem =>
    (ht.isEntryName hk.entry n (List.mem_append_right _ hmem)).toIsPlainName, rfl⟩

/-- The path of a place is that of a directory exactly if one stands there. -/
lemma isDirectory_pathOf_iff (ht : t.WellFormed) (he : t.entryAt? l = some e)
    (hlink : ∀ target, e ≠ .link target) (hsize : (pathOf l).text.utf8ByteSize ≤ pathLimit) :
    t.isDirectory (pathOf l) = true ↔ e = .directory := by
  rw [isDirectory_iff, find_pathOf ht he hlink hsize]
  simp

/-- A directory of the project leads to the place that its names say, and is taken for itself. -/
lemma resolveTarget_follow (ht : t.WellFormed) (hroot : root.isAbsolute = true)
    (hl : t.ResolvesTo root l e) (hd : t.entryAt? (l ++ names) = some .directory)
    (hsize : (pathOf (l ++ names)).text.utf8ByteSize ≤ pathLimit) :
    t.realPath (root.follow names) = .ok (pathOf (l ++ names)) ∧
      resolveTarget t root (root.follow names) = .ok (root.follow names) := by
  have hresolves := hl.follow ht hd (by simp) hsize
  refine ⟨hresolves.realPath, (resolveTarget_eq_ok_iff ht).mpr ⟨l, names, e, .directory, hl, ?_, ?_, rfl⟩⟩
  · rwa [Path.join_of_isAbsolute root (Path.isAbsolute_follow hroot)]
  · exact (isDirectory_pathOf_iff ht hd (by simp) hsize).mpr rfl

/-- From a resolved root, a path that is taken stands for the path of a directory. -/
lemma exists_pathOf_of_resolveTarget (ht : t.WellFormed) (hroot : t.realPath top = .ok root)
    (h : resolveTarget t root path = .ok d) : ∃ l, d = pathOf l ∧
      t.entryAt? l = some .directory ∧ (pathOf l).text.utf8ByteSize ≤ pathLimit := by
  obtain ⟨k, e, hk, rfl⟩ := realPath_eq_ok_iff.mp hroot
  obtain ⟨l, names, e, e', hl, hplace, hdirectory, rfl⟩ := (resolveTarget_eq_ok_iff ht).mp h
  obtain ⟨rfl, -⟩ := (hk.itself ht).unique hl
  obtain rfl := (isDirectory_pathOf_iff ht hplace.entry (hplace.not_link ht) hplace.size_le).mp
    hdirectory
  have hplain : ∀ n ∈ k ++ names, IsPlainName n :=
    fun n hmem => (ht.isEntryName hplace.entry n hmem).toIsPlainName
  exact ⟨k ++ names, (pathOf_append hplain).symm, hplace.entry, hplace.size_le⟩

/-! ## By paths -/

section
variable (ht : t.WellFormed) (htop : t.realPath root = .ok top)
include ht htop

/-- A path is taken exactly if it resolves to a directory at the resolved root or below it. -/
lemma exists_resolveTarget_iff : (∃ d, resolveTarget t root path = .ok d) ↔
    ∃ place, t.realPath (root.join path) = .ok place ∧ top.parts <+: place.parts ∧
      t.isDirectory place = true := by
  obtain ⟨l, e, hl, rfl⟩ := realPath_eq_ok_iff.mp htop
  have hplain : ∀ {k e}, t.entryAt? k = some e → ∀ n ∈ k, IsPlainName n :=
    fun he n hmem => (ht.isEntryName he n hmem).toIsPlainName
  constructor
  · rintro ⟨d, hd⟩
    obtain ⟨l', names, e, e', hl', hk, hdirectory, rfl⟩ := (resolveTarget_eq_ok_iff ht).mp hd
    obtain ⟨rfl, -⟩ := hl.unique hl'
    refine ⟨_, hk.realPath, ?_, hdirectory⟩
    exact (pathOf_parts_prefix_iff (hplain hl.entry) (hplain hk.entry)).mpr ⟨names, rfl⟩
  · rintro ⟨place, hplace, hwithin, hdirectory⟩
    obtain ⟨k, e', hk, rfl⟩ := realPath_eq_ok_iff.mp hplace
    obtain ⟨names, rfl⟩ :=
      (pathOf_parts_prefix_iff (hplain hl.entry) (hplain hk.entry)).mp hwithin
    exact ⟨_, (resolveTarget_eq_ok_iff ht).mpr ⟨l, names, e, e', hl, hk, hdirectory, rfl⟩⟩

/-- What a path is taken for: the root, continued by the names between the resolved root and the
place that the path resolves to. It resolves to the same place and is taken for itself. -/
lemma resolved_of_resolveTarget (hroot : root.isAbsolute = true)
    (h : resolveTarget t root path = .ok d) :
    (∃ place names, t.realPath (root.join path) = .ok place ∧
      place.parts = top.parts ++ names.map .name ∧
      d = if names = [] then root else root.join (.ofNames names)) ∧
    t.realPath d = t.realPath (root.join path) ∧ resolveTarget t root d = .ok d := by
  obtain ⟨l, e, hl, rfl⟩ := realPath_eq_ok_iff.mp htop
  obtain ⟨l', names, e, e', hl', hk, hdirectory, rfl⟩ := (resolveTarget_eq_ok_iff ht).mp h
  obtain ⟨rfl, -⟩ := hl.unique hl'
  have hplain : ∀ n ∈ l ++ names, IsPlainName n :=
    fun n hmem => (ht.isEntryName hk.entry n hmem).toIsPlainName
  have hnames : ∀ n ∈ names, IsPlainName n :=
    fun n hmem => hplain n (List.mem_append_right _ hmem)
  have habove : ∀ n ∈ l, IsPlainName n := fun n hmem => hplain n (List.mem_append_left _ hmem)
  obtain rfl := (isDirectory_pathOf_iff ht hk.entry (hk.not_link ht) hk.size_le).mp hdirectory
  obtain ⟨hplace, hagain⟩ := resolveTarget_follow ht hroot hl hk.entry hk.size_le
  refine ⟨⟨_, names, hk.realPath, ?_, ?_⟩, hplace.trans hk.realPath.symm, hagain⟩
  · rw [parts_pathOf hplain, parts_pathOf habove, List.map_append, List.cons_append]
  · rw [← Path.join_ofNames_ite root hnames, Path.isEmpty_ofNames hnames]
    simp

omit ht in
/-- A path leads out of the project exactly if it resolves to something that is not below the
resolved root. -/
lemma resolveTarget_eq_outsideRoot_iff : resolveTarget t root path = .error (.outsideRoot p) ↔
    p = root.join path ∧ ∃ place, t.realPath (root.join path) = .ok place ∧
      ¬top.parts <+: place.parts := by
  have hnone := fun place =>
    Path.relativeTo?_eq_none_iff (p := place) (text_ne_empty_of_realPath htop)
  rw [resolveTarget_eq_error_iff]
  constructor
  · intro h
    cases h with
    | outside top' place htop' hplace hrest =>
      obtain rfl := Except.ok.inj (htop.symm.trans htop')
      exact ⟨rfl, place, hplace, (hnone place).mp hrest⟩
  · rintro ⟨rfl, place, hplace, hwithout⟩
    exact .outside _ place htop hplace ((hnone place).mpr hwithout)

omit ht in
/-- A path leads to something other than a directory in the project. -/
lemma resolveTarget_eq_config_iff : resolveTarget t root path = .error (.config reason) ↔
    reason = (root.join path).text ++ " is not a directory" ∧
      ∃ place, t.realPath (root.join path) = .ok place ∧ top.parts <+: place.parts ∧
        t.isDirectory place = false := by
  have hsome := fun place =>
    Path.exists_relativeTo?_iff (p := place) (text_ne_empty_of_realPath htop)
  rw [resolveTarget_eq_error_iff]
  constructor
  · intro h
    cases h with
    | noDirectory top' place rest htop' hplace hrest hdirectory =>
      obtain rfl := Except.ok.inj (htop.symm.trans htop')
      exact ⟨rfl, place, hplace, (hsome place).mp ⟨rest, hrest⟩, hdirectory⟩
  · rintro ⟨rfl, place, hplace, hwithin, hdirectory⟩
    obtain ⟨rest, hrest⟩ := (hsome place).mpr hwithin
    exact .noDirectory _ place rest htop hplace hrest hdirectory

omit ht in
/-- A path leads nowhere. -/
lemma resolveTarget_eq_file_iff : resolveTarget t root path = .error (.file f) ↔
    t.realPath (root.join path) = .error f := by
  rw [resolveTarget_eq_error_iff]
  constructor
  · intro h
    cases h with
    | rootless _ he =>
      rw [htop] at he
      cases he
    | lost _ _ _ he => exact he
  · exact fun he => .lost f top htop he

end

/-- A path that was given, joined to the root, is taken for a directory of the project exactly if it
resolves to one at the resolved root or below it, part by part. The directory is the root, continued
by the names between the two; it resolves to the same place, and given as a path it is taken for
itself. Any other path is refused for the reason that keeps it from being taken. -/
theorem resolveTarget_confined (path : Path) (ht : t.WellFormed) (hroot : root.isAbsolute = true)
    (htop : t.realPath root = .ok top) :
    ((∃ d, resolveTarget t root path = .ok d) ↔ ∃ place,
        t.realPath (root.join path) = .ok place ∧ top.parts <+: place.parts ∧
          t.isDirectory place = true) ∧
      (∀ d, resolveTarget t root path = .ok d →
        (∃ place names, t.realPath (root.join path) = .ok place ∧
          place.parts = top.parts ++ names.map .name ∧
          d = if names = [] then root else root.join (.ofNames names)) ∧
        t.realPath d = t.realPath (root.join path) ∧ resolveTarget t root d = .ok d) ∧
      (∀ p, resolveTarget t root path = .error (.outsideRoot p) ↔ p = root.join path ∧ ∃ place,
        t.realPath (root.join path) = .ok place ∧ ¬top.parts <+: place.parts) ∧
      (∀ reason, resolveTarget t root path = .error (.config reason) ↔
        reason = (root.join path).text ++ " is not a directory" ∧ ∃ place,
          t.realPath (root.join path) = .ok place ∧ top.parts <+: place.parts ∧
            t.isDirectory place = false) ∧
      ∀ f, resolveTarget t root path = .error (.file f) ↔
        t.realPath (root.join path) = .error f :=
  ⟨exists_resolveTarget_iff ht htop, fun _ => resolved_of_resolveTarget ht htop hroot,
    fun _ => resolveTarget_eq_outsideRoot_iff htop, fun _ => resolveTarget_eq_config_iff htop,
    fun _ => resolveTarget_eq_file_iff htop⟩

/-! ## A project with links -/

/-- A project that is reached over a link. A link in it leads out, to a directory with a similar
name, and from there another link leads back in. -/
def linkedProject : FileTree where
  entries := [(["home"], .directory), (["home", "src"], .directory),
    (["home", "away"], .link "/home2"), (["home2"], .directory),
    (["home2", "back"], .link "../home/src"), (["p"], .link "home")]

lemma wellFormed_linkedProject : linkedProject.WellFormed := by decide

/-- The link to the project leads to it, whatever comes after. -/
lemma walk_linkedProject (links : Nat) (rest : List String) :
    linkedProject.walk (links + 1) [] ("p" :: rest) = linkedProject.walk links ["home"] rest := by
  have hsegments : segments "home" = ["home"] := by decide
  have hstart : startOf "home" [] = [] := rfl
  have hp : linkedProject.entryAt? ([] ++ ["p"]) = some (.link "home") := rfl
  have hhome : ∀ target, linkedProject.entryAt? ([] ++ ["home"]) ≠ some (.link target) := nofun
  rw [walk_of_link rfl (by decide) (by decide) (by decide) hp, hsegments, hstart,
    List.singleton_append, walk_of_entry rfl (by decide) (by decide) (by decide) hhome,
    List.nil_append]

/-- The link out of the project leads to the directory beside it. -/
lemma walk_linkedProject_away (links : Nat) (rest : List String) :
    linkedProject.walk (links + 1) ["home"] ("away" :: rest) =
      linkedProject.walk links ["home2"] rest := by
  have hsegments : segments "/home2" = ["home2"] := by decide
  have hstart : startOf "/home2" ["home"] = [] := by decide
  have haway : linkedProject.entryAt? (["home"] ++ ["away"]) = some (.link "/home2") := rfl
  have hhome : ∀ target, linkedProject.entryAt? ([] ++ ["home2"]) ≠ some (.link target) := nofun
  rw [walk_of_link rfl (by decide) (by decide) (by decide) haway, hsegments, hstart,
    List.singleton_append, walk_of_entry rfl (by decide) (by decide) (by decide) hhome,
    List.nil_append]

/-- From there another link leads back. -/
lemma walk_linkedProject_back (links : Nat) :
    linkedProject.walk (links + 1) ["home2"] ["back"] = .ok ["home", "src"] := by
  have hsegments : segments "../home/src" = ["..", "home", "src"] := by decide
  have hstart : startOf "../home/src" ["home2"] = ["home2"] := by decide
  have hback : linkedProject.entryAt? (["home2"] ++ ["back"]) = some (.link "../home/src") := rfl
  have hsrc : linkedProject.entryAt? ([] ++ ["home", "src"]) = some .directory := rfl
  rw [walk_of_link rfl (by decide) (by decide) (by decide) hback, hsegments, hstart,
    List.append_nil, walk_up rfl]
  exact walk_down wellFormed_linkedProject hsrc (by simp)

lemma find_linkedProject : linkedProject.find ⟨"/p"⟩ = .ok (["home"], .directory) := by
  have hadmitted : (⟨"/p"⟩ : Path).IsAdmitted := by decide
  have hsegments : segments "/p" = ["p"] := by decide
  refine find_eq_ok_iff.mpr ⟨?_, rfl⟩
  rw [locate_of_admitted _ hadmitted, startOf_of_isAbsolute (by decide), hsegments, linkLimit,
    walk_linkedProject, walk_nil]

lemma realPath_linkedProject : linkedProject.realPath ⟨"/p"⟩ = .ok ⟨"/home"⟩ := by
  have hpath : (⟨"/home"⟩ : Path) = pathOf ["home"] := by decide
  rw [hpath]
  exact (resolvesTo_of_find find_linkedProject (by decide +kernel)).realPath

lemma isDirectory_linkedProject_src : linkedProject.isDirectory ⟨"/home/src"⟩ = true := by
  have hsrc : linkedProject.entryAt? ["home", "src"] = some .directory := rfl
  have hpath : (⟨"/home/src"⟩ : Path) = pathOf ["home", "src"] := by decide
  rw [hpath, isDirectory_pathOf_iff wellFormed_linkedProject hsrc (by simp) (by decide +kernel)]

/-- A path that leads out over one link and back over another is taken for the directory at its end. -/
theorem resolveTarget_linkedProject :
    linkedProject.WellFormed ∧ (⟨"/p"⟩ : Path).isAbsolute = true ∧
      linkedProject.realPath ⟨"/p"⟩ = .ok ⟨"/home"⟩ ∧
      resolveTarget linkedProject ⟨"/p"⟩ ⟨"away/back"⟩ = .ok ⟨"/p/src"⟩ ∧
      resolveTarget linkedProject ⟨"/p"⟩ ⟨"/p/src"⟩ = .ok ⟨"/p/src"⟩ ∧
      resolveTarget linkedProject ⟨"/p"⟩ ⟨"away"⟩ = .error (.outsideRoot ⟨"/p/away"⟩) := by
  have habsolute : (⟨"/p"⟩ : Path).isAbsolute = true := by decide
  have hback : linkedProject.realPath ((⟨"/p"⟩ : Path).join ⟨"away/back"⟩) = .ok ⟨"/home/src"⟩ := by
    have hsegments : segments ((⟨"/p"⟩ : Path).join ⟨"away/back"⟩).text = ["p", "away", "back"] := by
      decide
    refine realPath_eq_ok_iff.mpr
      ⟨["home", "src"], .directory, ⟨by decide, by decide, ?_, rfl, ?_⟩, ?_⟩
    · rw [startOf_of_isAbsolute (by decide), hsegments, linkLimit, walk_linkedProject,
        walk_linkedProject_away, walk_linkedProject_back]
    · decide +kernel
    · decide
  have haway : linkedProject.realPath ((⟨"/p"⟩ : Path).join ⟨"away"⟩) = .ok ⟨"/home2"⟩ := by
    have hsegments : segments ((⟨"/p"⟩ : Path).join ⟨"away"⟩).text = ["p", "away"] := by decide
    refine realPath_eq_ok_iff.mpr ⟨["home2"], .directory, ⟨by decide, by decide, ?_, rfl, ?_⟩, ?_⟩
    · rw [startOf_of_isAbsolute (by decide), hsegments, linkLimit, walk_linkedProject,
        walk_linkedProject_away, walk_nil]
    · decide +kernel
    · decide
  obtain ⟨htaken, hdirectory, -⟩ :=
    resolveTarget_confined ⟨"away/back"⟩ wellFormed_linkedProject habsolute realPath_linkedProject
  obtain ⟨-, -, houtside, -⟩ :=
    resolveTarget_confined ⟨"away"⟩ wellFormed_linkedProject habsolute realPath_linkedProject
  obtain ⟨d, hd⟩ := htaken.mpr ⟨_, hback, by decide, isDirectory_linkedProject_src⟩
  obtain ⟨⟨place, names, hplace, hparts, hnames⟩, -, hagain⟩ := hdirectory d hd
  obtain rfl := Except.ok.inj (hback.symm.trans hplace)
  obtain rfl : names = ["src"] := by
    have hboth : (⟨"/home/src"⟩ : Path).parts = (⟨"/home"⟩ : Path).parts ++ ["src"].map .name := by
      decide
    rw [hboth, List.append_cancel_left_eq] at hparts
    exact ((List.map_inj_right fun _ _ heq => PathPart.name.inj heq).mp hparts).symm
  obtain rfl : d = ⟨"/p/src"⟩ := hnames.trans (by decide)
  exact ⟨wellFormed_linkedProject, habsolute, realPath_linkedProject, hd, hagain,
    (houtside _).mpr ⟨by decide, _, haway, by decide⟩⟩

end DirectoryNotes
