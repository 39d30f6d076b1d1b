import DirectoryNotes.Proofs.FileTree.RealPath
import DirectoryNotes.Proofs.View.Documents

/-!
# The standard view

The standard view shows the document of a target and the first lines of the one above it, if that
belongs to the project. What lies above is told by the places that the target and the root resolve to:

* `LiesBelow`: the target stands in a directory of the project. `parentWithinRoot?_eq_some_iff` says
  that the view looks for a document there, and only there;
* `read_eq_some_iff_hasText`: what is read is the text of the document;
* `standardView_shows`: the parts of the view, and what they depend on. The document above is a file of
  the project, unless it is a link: `standardView_leaks` shows a text from outside the root.
-/

namespace DirectoryNotes.View

open FileTree Text Document

variable {t t' : FileTree} {root target above d p : Path} {l k : Location} {names : List String}
  {name text : String} {found document : Option String}

/-! ## The directory above -/

/-- The target stands in a directory of the project: names lead down to the directory from the place
that the root resolves to, and the directory is the parent of the place that the target resolves to. -/
def LiesBelow (t : FileTree) (root target : Path) (names : List String) (above : Path) : Prop :=
  ∃ top place last, t.realPath root = .ok top ∧ t.realPath target = .ok place ∧
    place.parts = top.parts ++ names.map .name ++ [.name last] ∧ place.parent? = some above

/-- The path without links of the target has more parts than that of the root, which come first. -/
def IsStrictlyBelow (t : FileTree) (root target : Path) : Prop :=
  ∃ top place, t.realPath root = .ok top ∧ t.realPath target = .ok place ∧
    top.parts <+: place.parts ∧ top.parts ≠ place.parts

lemma parent?_pathOf (hn : ∀ n ∈ l ++ [name], IsPlainName n) :
    (pathOf (l ++ [name])).parent? = some (pathOf l) := by
  have htrimmed : (pathOf l).trimmed = pathOf l := by
    by_cases hl : l = []
    · subst hl
      decide
    · have hplain : ∀ n ∈ l, IsPlainName n := fun n hmem => hn n (List.mem_append_left _ hmem)
      rw [pathOf_eq_follow hplain, Path.trimmed_follow _ hl hplain]
  rw [pathOf_append hn, Path.follow_cons, Path.follow_nil, Path.parent?_join _ (hn name (by simp)),
    htrimmed]

/-- By locations: the names lead from the one to the directory of the other. -/
lemma liesBelow_iff (ht : t.WellFormed) : LiesBelow t root target names above ↔
    ∃ l last e e', t.ResolvesTo root l e ∧ t.ResolvesTo target (l ++ names ++ [last]) e' ∧
      above = pathOf (l ++ names) := by
  have hplain : ∀ {k e}, t.entryAt? k = some e → ∀ n ∈ k, IsPlainName n :=
    fun he n hmem => (ht.isEntryName he n hmem).toIsPlainName
  constructor
  · rintro ⟨top, place, last, htop, hplace, hparts, habove⟩
    obtain ⟨l, e, hl, rfl⟩ := realPath_eq_ok_iff.mp htop
    obtain ⟨k, e', hk, rfl⟩ := realPath_eq_ok_iff.mp hplace
    obtain rfl : k = l ++ names ++ [last] := by
      rw [parts_pathOf (hplain hl.entry), parts_pathOf (hplain hk.entry)] at hparts
      have hmap : k.map PathPart.name = (l ++ names ++ [last]).map .name := by
        simpa using hparts
      exact (List.map_inj_right fun _ _ heq => PathPart.name.inj heq).mp hmap
    rw [parent?_pathOf (hplain hk.entry)] at habove
    exact ⟨l, last, e, e', hl, hk, (Option.some.inj habove).symm⟩
  · rintro ⟨l, last, e, e', hl, hk, rfl⟩
    refine ⟨_, _, last, hl.realPath, hk.realPath, ?_, parent?_pathOf (hplain hk.entry)⟩
    rw [parts_pathOf (hplain hl.entry), parts_pathOf (hplain hk.entry)]
    simp

/-- There is such a directory exactly if the target resolves to a place below the root's. -/
lemma isStrictlyBelow_iff (ht : t.WellFormed) :
    IsStrictlyBelow t root target ↔ ∃ names above, LiesBelow t root target names above := by
  have hplain : ∀ {k e}, t.entryAt? k = some e → ∀ n ∈ k, IsPlainName n :=
    fun he n hmem => (ht.isEntryName he n hmem).toIsPlainName
  constructor
  · rintro ⟨top, place, htop, hplace, hprefix, hne⟩
    obtain ⟨l, e, hl, rfl⟩ := realPath_eq_ok_iff.mp htop
    obtain ⟨k, e', hk, rfl⟩ := realPath_eq_ok_iff.mp hplace
    obtain ⟨more, rfl⟩ := (pathOf_parts_prefix_iff (hplain hl.entry) (hplain hk.entry)).mp hprefix
    rcases List.eq_nil_or_concat more with rfl | ⟨names, last, rfl⟩
    · exact absurd (by rw [List.append_nil]) hne
    · rw [List.concat_eq_append, ← List.append_assoc] at hk
      exact ⟨names, _, (liesBelow_iff ht).mpr ⟨l, last, e, e', hl, hk, rfl⟩⟩
  · rintro ⟨names, above, top, place, last, htop, hplace, hparts, -⟩
    refine ⟨top, place, htop, hplace, ?_, fun heq => ?_⟩
    · rw [hparts, List.append_assoc]
      exact List.prefix_append _ _
    · have hlength := congrArg List.length (heq.trans hparts)
      simp at hlength

/-- Where the root and the target resolve, the view looks above if the target is below the root. -/
lemma parentWithinRoot?_of_resolvesTo (ht : t.WellFormed) {e e' : Entry}
    (hl : t.ResolvesTo root l e) (hk : t.ResolvesTo target k e') :
    parentWithinRoot? t root target = some d ↔
      ∃ names last, k = l ++ names ++ [last] ∧ d = root.follow names := by
  have habove : ∀ n ∈ l, IsPlainName n := fun n hmem => (ht.isEntryName hl.entry n hmem).toIsPlainName
  have hplain : ∀ n ∈ k, IsPlainName n := fun n hmem => (ht.isEntryName hk.entry n hmem).toIsPlainName
  unfold parentWithinRoot?
  rw [hl.realPath, hk.realPath]
  dsimp only
  rcases List.eq_nil_or_concat k with rfl | ⟨front, last, rfl⟩
  · have hnone : (pathOf []).parent? = none := by decide
    simp [hnone]
  · rw [List.concat_eq_append] at hplain ⊢
    have hfront : ∀ n ∈ front, IsPlainName n := fun n hmem => hplain n (List.mem_append_left _ hmem)
    have hsplit : (∃ names last', front ++ [last] = l ++ names ++ [last'] ∧ d = root.follow names) ↔
        ∃ names, front = l ++ names ∧ d = root.follow names := by
      constructor
      · rintro ⟨names, last', heq, rfl⟩
        exact ⟨names, (List.append_inj' heq rfl).1, rfl⟩
      · rintro ⟨names, rfl, rfl⟩
        exact ⟨names, last, rfl, rfl⟩
    rw [hsplit, parent?_pathOf hplain]
    have hrest : ((pathOf front).relativeTo? (pathOf l)).map
        (fun rest => if rest.isEmpty then root else root.join rest) = some d ↔
          ∃ names, front = l ++ names ∧ d = root.follow names := by
      rw [Option.map_eq_some_iff]
      constructor
      · rintro ⟨rest, hrest, rfl⟩
        obtain ⟨names, rfl, rfl⟩ := (pathOf_relativeTo?_iff habove hfront).mp hrest
        exact ⟨names, rfl, Path.join_ofNames_ite root fun n hmem =>
          hfront n (List.mem_append_right _ hmem)⟩
      · rintro ⟨names, rfl, rfl⟩
        refine ⟨_, (pathOf_relativeTo?_iff habove hfront).mpr ⟨names, rfl, rfl⟩, ?_⟩
        exact Path.join_ofNames_ite root fun n hmem => hfront n (List.mem_append_right _ hmem)
    split
    · next hsame =>
      -- the root itself is not below the root
      have hparts : (pathOf (front ++ [last])).parts = (pathOf l).parts := by
        simpa [Path.same] using hsame
      rw [parts_pathOf hplain, parts_pathOf habove] at hparts
      have hlength := congrArg List.length hparts
      simp only [bind, Option.bind_none, reduceCtorEq, false_iff]
      rintro ⟨names, rfl, -⟩
      simp at hlength
    · rw [← hrest]
      simp only [bind, Option.bind_some]
      cases (pathOf front).relativeTo? (pathOf l) <;> rfl

/-- The view looks above in the directory of the target, if the project has it, and it names the
directory from the root as the root is written. -/
theorem parentWithinRoot?_eq_some_iff (ht : t.WellFormed) :
    parentWithinRoot? t root target = some d ↔
      ∃ names above, LiesBelow t root target names above ∧ d = root.follow names := by
  simp only [liesBelow_iff ht]
  constructor
  · intro h
    have hresolves : ∃ top place, t.realPath root = .ok top ∧ t.realPath target = .ok place := by
      unfold parentWithinRoot? at h
      split at h
      · next top place htop hplace => exact ⟨top, place, htop, hplace⟩
      · cases h
    obtain ⟨top, place, htop, hplace⟩ := hresolves
    obtain ⟨l, e, hl, rfl⟩ := realPath_eq_ok_iff.mp htop
    obtain ⟨k, e', hk, rfl⟩ := realPath_eq_ok_iff.mp hplace
    obtain ⟨names, last, rfl, rfl⟩ := (parentWithinRoot?_of_resolvesTo ht hl hk).mp h
    exact ⟨names, _, ⟨l, last, e, e', hl, hk, rfl⟩, rfl⟩
  · rintro ⟨names, above, ⟨l, last, e, e', hl, hk, rfl⟩, rfl⟩
    exact (parentWithinRoot?_of_resolvesTo ht hl hk).mpr ⟨names, last, rfl, rfl⟩

/-! ## What is read -/

/-- A path leads to a directory with a document: from there its name leads, over links or not, to a
file with the text. -/
def HasText (t : FileTree) (directory : Path) (text : String) : Prop :=
  ∃ l k bytes seconds, t.LeadsInto directory l ∧ t.walk linkLimit l [fileName] = .ok k ∧
    t.entryAt? k = some (.file bytes seconds) ∧ String.fromUTF8? bytes = some text

lemma text_pathIn_ne_empty (d : Path) : (pathIn d).text ≠ "" := by
  intro hempty
  have hchars := congrArg String.toList hempty
  rw [pathIn, Path.join_toList d isEntryName_fileName.isAbsolute_eq] at hchars
  have hname : fileName.toList ≠ [] := by decide
  simp [hname] at hchars

lemma find_eq_missing_of_readText (h : t.readText p = .error .missing) :
    t.find p = .error .missing := by
  unfold readText readBytes at h
  cases hp : t.find p with
  | error reason =>
    rw [hp] at h
    obtain rfl := Except.error.inj h
    rfl
  | ok there =>
    obtain ⟨k, e⟩ := there
    rw [hp] at h
    cases e with
    | file bytes seconds =>
      simp only [bind, Except.bind] at h
      split at h <;> cases h
    | directory => cases h
    | link target => cases h

lemma find_eq_missing_of_read (h : Document.read t d = .ok none) :
    t.find (pathIn d) = .error .missing := by
  refine find_eq_missing_of_readText ?_
  unfold Document.read at h
  split at h
  · cases h
  · assumption
  · cases h

/-- What is read is the text. -/
lemma hasText_of_read (h : Document.read t d = .ok (some text)) : HasText t d text := by
  obtain ⟨k, bytes, seconds, hfind, htext⟩ := readText_eq_ok_iff.mp (read_eq_ok_some_iff.mp h)
  obtain ⟨hlocate, hentry⟩ := find_eq_ok_iff.mp hfind
  obtain ⟨l, hl⟩ := leadsInto_of_locate_join isEntryName_fileName.toIsPlainName hlocate
  obtain ⟨left, hle, hwalk⟩ :=
    hl.exists_locate_join isEntryName_fileName.toIsPlainName (isAdmitted_of_locate hlocate)
  rw [pathIn, hwalk] at hlocate
  exact ⟨l, k, bytes, seconds, hl, walk_of_le hlocate hle, hentry, htext⟩

/-- A directory has one text. -/
lemma HasText.unique {other : String} (h : HasText t d text) (h' : HasText t d other) :
    text = other := by
  obtain ⟨l, k, bytes, seconds, hl, hk, hentry, htext⟩ := h
  obtain ⟨l', k', bytes', seconds', hl', hk', hentry', htext'⟩ := h'
  obtain rfl := hl.unique hl'
  obtain rfl := Except.ok.inj (hk.symm.trans hk')
  obtain ⟨rfl, -⟩ := Entry.file.inj (Option.some.inj (hentry.symm.trans hentry'))
  exact Option.some.inj (htext.symm.trans htext')

/-- A path that is refused is not missing. -/
lemma isAdmitted_of_find_missing (h : t.find (pathIn d) = .error .missing) :
    (pathIn d).IsAdmitted := by
  refine Classical.byContradiction fun hnot => ?_
  obtain ⟨reason, hbegin⟩ := begin_of_not_admitted hnot
  unfold find locate at h
  rw [hbegin t] at h
  obtain rfl : reason = .missing := Except.error.inj h
  exact begin_ne_missing (text_pathIn_ne_empty d) (hbegin t)

/-- A document that the name leads to is not missing. -/
lemma HasText.find_ne_missing (h : HasText t d text) : t.find (pathIn d) ≠ .error .missing := by
  intro hmissing
  obtain ⟨l, k, bytes, seconds, hl, hk, hentry, -⟩ := h
  obtain ⟨left, hle, hwalk⟩ := hl.exists_locate_join isEntryName_fileName.toIsPlainName
    (isAdmitted_of_find_missing hmissing)
  unfold find at hmissing
  rw [pathIn, hwalk] at hmissing
  cases hleft : t.walk left l [fileName] with
  | error reason =>
    rw [hleft] at hmissing
    obtain rfl : reason = .missing := Except.error.inj hmissing
    rw [walk_error_of_le hleft (by decide) hle] at hk
    cases hk
  | ok k' =>
    obtain rfl := Except.ok.inj ((walk_of_le hleft hle).symm.trans hk)
    rw [hleft] at hmissing
    simp only [bind, Except.bind, hentry] at hmissing
    cases hmissing

/-- If the document of a directory can be read, what is read is its text, and nothing is read only
where there is none. -/
theorem read_eq_some_iff_hasText (h : Document.read t d = .ok found) :
    found = some text ↔ HasText t d text := by
  cases found with
  | none => exact iff_of_false (by simp) fun htext => htext.find_ne_missing (find_eq_missing_of_read h)
  | some other =>
    rw [Option.some.injEq]
    exact ⟨fun heq => heq ▸ hasText_of_read h, fun htext => (hasText_of_read h).unique htext⟩

/-! ## The parts of the view -/

/-- The part of the target: its document, or the notice that it has none. It ends in a line feed. -/
def ownPart (target : Path) (document : Option String) : String :=
  let shown := document.getD (missingNotice target)
  shown ++ if shown.toList.getLast? = some '\n' then "" else "\n"

/-- The section of the directory above: its title, the first twenty lines of its document, and points
if there are more. -/
def aboveSection (names : List String) (text : String) : String :=
  "\n## Parent Context (" ++ titleOf names ++ ")\n\n" ++
    (String.join (((linesOf text).take 20).map (· ++ "\n")) ++
      if (linesOf text).length > 20 then "...\n" else "")

lemma closed_eq (shown : String) :
    closed shown = shown ++ if shown.toList.getLast? = some '\n' then "" else "\n" := by
  have hends : Text.endsWith shown "\n" = true ↔ shown.toList.getLast? = some '\n' := by
    rw [Text.endsWith, List.isSuffixOf_iff_suffix, List.getLast?_eq_some_iff]
    exact ⟨fun ⟨front, hfront⟩ => ⟨front, hfront.symm⟩, fun ⟨front, hfront⟩ => ⟨front, hfront.symm⟩⟩
  unfold closed
  by_cases h : shown.toList.getLast? = some '\n'
  · rw [if_pos (hends.mpr h), if_pos h, String.append_empty]
  · rw [if_neg (mt hends.mp h), if_neg h]

lemma documentOrNotice_of_read (h : Document.read t target = .ok document) :
    documentOrNotice t target = .ok (ownPart target document) := by
  unfold documentOrNotice
  rw [h]
  simp only [bind, Except.bind, pure, Except.pure, closed_eq]
  rfl

lemma standardView_of_none (hdocument : Document.read t target = .ok document)
    (habove : parentWithinRoot? t root target = none) :
    standardView t root target = .ok (ownPart target document) := by
  unfold standardView
  rw [documentOrNotice_of_read hdocument, habove]
  rfl

lemma standardView_of_some (hdocument : Document.read t target = .ok document)
    (habove : parentWithinRoot? t root target = some (root.follow names))
    (hread : Document.read t (root.follow names) = .ok found) (hroot : root.text ≠ "")
    (hn : ∀ n ∈ names, IsPlainName n) :
    standardView t root target =
      .ok (ownPart target document ++ (found.map (aboveSection names)).getD "") := by
  unfold standardView
  rw [documentOrNotice_of_read hdocument, habove]
  simp only [bind, Except.bind, hread]
  cases found with
  | none => simp [pure, Except.pure]
  | some text =>
    have hjoin : ∀ a b c d e : String, a ++ b ++ c ++ d ++ e = a ++ (b ++ c ++ d ++ e) := by
      intros
      simp only [String.append_assoc]
    rw [relativeName_follow hroot hn]
    exact congrArg Except.ok (hjoin _ _ _ _ _)

lemma utf8ByteSize_pathOf_le (l : Location) (name : String) :
    (pathOf l).text.utf8ByteSize ≤ (pathOf (l ++ [name])).text.utf8ByteSize := by
  by_cases hl : l = []
  · subst hl
    have hslash : (pathOf []).text.utf8ByteSize = 1 := by decide +kernel
    rw [hslash, List.nil_append, size_pathOf (List.cons_ne_nil name []), List.map_singleton,
      List.sum_singleton]
    exact Nat.le_add_left _ _
  · rw [size_pathOf hl, size_pathOf (by simp), List.map_append, List.sum_append]
    exact Nat.le_add_right _ _

/-- The directory above is the one that the names from the root lead into. -/
lemma LiesBelow.leadsInto (h : LiesBelow t root target names above) (ht : t.WellFormed) :
    ∃ l, t.LeadsInto root l ∧ t.LeadsInto (root.follow names) (l ++ names) ∧
      t.LeadsInto above (l ++ names) := by
  obtain ⟨l, last, e, e', hl, hk, rfl⟩ := (liesBelow_iff ht).mp h
  have hdir : t.entryAt? (l ++ names) = some .directory := ht.parent hk.entry
  have htop : t.entryAt? l = some .directory := by
    by_cases hnames : names = []
    · simpa [hnames] using hdir
    · exact ht.above hnames hdir
  have hsize := (utf8ByteSize_pathOf_le (l ++ names) last).trans hk.size_le
  have hfollow := hl.follow ht hdir (by simp) hsize
  exact ⟨l, ⟨hl.walk, htop⟩, ⟨hfollow.walk, hdir⟩, ⟨(hfollow.itself ht).walk, hdir⟩⟩

lemma LiesBelow.hasText_iff (h : LiesBelow t root target names above) (ht : t.WellFormed) :
    HasText t (root.follow names) text ↔ HasText t above text := by
  obtain ⟨l, -, hfollow, habove⟩ := h.leadsInto ht
  constructor
  · rintro ⟨l', k, bytes, seconds, hl', hk, hentry, htext⟩
    obtain rfl := hfollow.unique hl'
    exact ⟨_, k, bytes, seconds, habove, hk, hentry, htext⟩
  · rintro ⟨l', k, bytes, seconds, hl', hk, hentry, htext⟩
    obtain rfl := habove.unique hl'
    exact ⟨_, k, bytes, seconds, hfollow, hk, hentry, htext⟩

/-- A location holds a text: a file stands there, and the text is in it. -/
def Holds (t : FileTree) (l : Location) (text : String) : Prop :=
  ∃ bytes seconds, t.entryAt? l = some (.file bytes seconds) ∧ String.fromUTF8? bytes = some text

/-- Where the document is no link, its text is in the directory itself. -/
lemma hasText_iff_holds (hd : t.LeadsInto d l)
    (hlink : ∀ link, t.entryAt? (l ++ [fileName]) ≠ some (.link link)) :
    HasText t d text ↔ Holds t (l ++ [fileName]) text := by
  have hwalk : t.walk linkLimit l [fileName] = .ok (l ++ [fileName]) := by
    rw [walk_name hd.directory isEntryName_fileName.toIsPlainName hlink,
      if_pos isEntryName_fileName.size_le]
  constructor
  · rintro ⟨l', k, bytes, seconds, hl', hk, hentry, htext⟩
    obtain rfl := hd.unique hl'
    obtain rfl := Except.ok.inj (hwalk.symm.trans hk)
    exact ⟨bytes, seconds, hentry, htext⟩
  · rintro ⟨bytes, seconds, hentry, htext⟩
    exact ⟨l, _, bytes, seconds, hd, hwalk, hentry, htext⟩

/-- Where the document is no link, what is read depends on the entry of the directory alone. -/
lemma read_congr_of_entry (hd : t.LeadsInto d l) (hd' : t'.LeadsInto d l)
    (hlink : ∀ link, t.entryAt? (l ++ [fileName]) ≠ some (.link link))
    (hentry : t'.entryAt? (l ++ [fileName]) = t.entryAt? (l ++ [fileName])) :
    Document.read t' d = Document.read t d := by
  have hname := isEntryName_fileName.toIsPlainName
  have hfind : t'.find (pathIn d) = t.find (pathIn d) := by
    unfold find
    by_cases hadmitted : (pathIn d).IsAdmitted
    · rw [pathIn] at hadmitted ⊢
      rw [locate_join hd hname hlink hadmitted, locate_join hd' hname (hentry ▸ hlink) hadmitted,
        if_pos isEntryName_fileName.size_le]
      simp only [bind, Except.bind, hentry]
    · obtain ⟨reason, hbegin⟩ := begin_of_not_admitted hadmitted
      simp only [locate, hbegin, bind, Except.bind]
  unfold Document.read readText readBytes
  rw [hfind]

/-- The view depends on where the root and the target resolve to and on the documents of the target
and of the directory above, and on nothing else. -/
lemma standardView_congr (ht : t.WellFormed) (hroot : t'.realPath root = t.realPath root)
    (htarget : t'.realPath target = t.realPath target)
    (hown : Document.read t' target = Document.read t target)
    (habove : ∀ names above, LiesBelow t root target names above →
      Document.read t' (root.follow names) = Document.read t (root.follow names)) :
    standardView t' root target = standardView t root target := by
  have hparent : parentWithinRoot? t' root target = parentWithinRoot? t root target := by
    unfold parentWithinRoot?
    rw [hroot, htarget]
  unfold standardView documentOrNotice
  rw [hparent, hown]
  cases hd : parentWithinRoot? t root target with
  | none => rfl
  | some d =>
    obtain ⟨names, above, hnames, rfl⟩ := (parentWithinRoot?_eq_some_iff ht).mp hd
    simp only [habove names above hnames]

/-- Trees in which the root and the target resolve alike have the same directory above. -/
lemma LiesBelow.congr (h : LiesBelow t root target names above)
    (hroot : t'.realPath root = t.realPath root) (htarget : t'.realPath target = t.realPath target) :
    LiesBelow t' root target names above := by
  unfold LiesBelow at h ⊢
  rwa [hroot, htarget]

/-- A document above that is no link is read alike in trees that have it alike. -/
lemma LiesBelow.read_congr (h : LiesBelow t root target names above) (ht : t.WellFormed)
    (ht' : t'.WellFormed) (hroot : t'.realPath root = t.realPath root)
    (htarget : t'.realPath target = t.realPath target) (hk : t.LeadsInto above k)
    (hlink : ∀ link, t.entryAt? (k ++ [fileName]) ≠ some (.link link))
    (hentry : t'.entryAt? (k ++ [fileName]) = t.entryAt? (k ++ [fileName])) :
    Document.read t' (root.follow names) = Document.read t (root.follow names) := by
  obtain ⟨l, last, e, e', hl, hlast, rfl⟩ := (liesBelow_iff ht).mp h
  obtain ⟨l', last', e₁, e₁', hl', hlast', habove⟩ :=
    (liesBelow_iff ht').mp (h.congr hroot htarget)
  have hplain : ∀ n ∈ l ++ names, IsPlainName n := fun n hmem =>
    (ht.isEntryName hlast.entry n (List.mem_append_left _ hmem)).toIsPlainName
  have hplain' : ∀ n ∈ l' ++ names, IsPlainName n := fun n hmem =>
    (ht'.isEntryName hlast'.entry n (List.mem_append_left _ hmem)).toIsPlainName
  have hsame : l ++ names = l' ++ names :=
    parts_pathOf_inj hplain hplain' (congrArg Path.parts habove)
  obtain ⟨m, hm, hfollow, hpath⟩ := h.leadsInto ht
  obtain ⟨m', hm', hfollow', -⟩ := (h.congr hroot htarget).leadsInto ht'
  obtain rfl : l = m := Except.ok.inj (hl.walk.symm.trans hm.way)
  obtain rfl : l' = m' := Except.ok.inj (hl'.walk.symm.trans hm'.way)
  obtain rfl := hpath.unique hk
  rw [← hsame] at hfollow'
  exact read_congr_of_entry hfollow hfollow' hlink hentry

/-- If the documents can be read, the view is that of the target, or the notice that there is none,
ended by a line feed. A section follows exactly if the target stands in a directory of the project that
has a document, and its text is held below the root unless this document is a link. A tree in which the
paths resolve alike and these documents are alike has the same view, and so has one with the same
document of the target and the same entry for the one above, if that is no link. -/
theorem standardView_shows (ht : t.WellFormed) (root target : Path) :
    (IsStrictlyBelow t root target ↔ ∃ names above, LiesBelow t root target names above) ∧
    (∀ document, Document.read t target = .ok document →
      (∀ text, document = some text ↔ HasText t target text) ∧
      (¬IsStrictlyBelow t root target →
        standardView t root target = .ok (ownPart target document)) ∧
      ∀ names above found, LiesBelow t root target names above →
        Document.read t (root.follow names) = .ok found →
          (∀ text, found = some text ↔ HasText t above text) ∧
          standardView t root target =
            .ok (ownPart target document ++ (found.map (aboveSection names)).getD "") ∧
          ∃ l, t.LeadsInto root l ∧ t.LeadsInto above (l ++ names) ∧
            ((∀ link, t.entryAt? (l ++ names ++ [fileName]) ≠ some (.link link)) →
              ∀ text, found = some text ↔ Holds t (l ++ names ++ [fileName]) text)) ∧
    ∀ t' : FileTree, t'.realPath root = t.realPath root → t'.realPath target = t.realPath target →
      Document.read t' target = Document.read t target →
      ((∀ names above, LiesBelow t root target names above →
          Document.read t' (root.follow names) = Document.read t (root.follow names)) →
        standardView t' root target = standardView t root target) ∧
      (t'.WellFormed →
        (∀ names above k, LiesBelow t root target names above → t.LeadsInto above k →
          (∀ link, t.entryAt? (k ++ [fileName]) ≠ some (.link link)) ∧
            t'.entryAt? (k ++ [fileName]) = t.entryAt? (k ++ [fileName])) →
        standardView t' root target = standardView t root target) := by
  refine ⟨isStrictlyBelow_iff ht, fun document hdocument => ⟨fun text =>
    read_eq_some_iff_hasText hdocument, fun houtside => ?_, fun names above found habove hread => ?_⟩,
    fun t' hroot htarget hown => ⟨standardView_congr ht hroot htarget hown, fun ht' hentries => ?_⟩⟩
  · refine standardView_of_none hdocument (Option.eq_none_iff_forall_ne_some.mpr fun d hd => ?_)
    obtain ⟨names, above, habove, -⟩ := (parentWithinRoot?_eq_some_iff ht).mp hd
    exact houtside ((isStrictlyBelow_iff ht).mpr ⟨names, above, habove⟩)
  · obtain ⟨l, last, e, e', hl, hk, -⟩ := (liesBelow_iff ht).mp habove
    have hplain : ∀ n ∈ names, IsPlainName n := fun n hmem =>
      (ht.isEntryName hk.entry n (by simp [hmem])).toIsPlainName
    have hd := (parentWithinRoot?_eq_some_iff ht).mpr ⟨names, above, habove, rfl⟩
    have htext : ∀ text, found = some text ↔ HasText t above text := fun text =>
      (read_eq_some_iff_hasText hread).trans (habove.hasText_iff ht)
    obtain ⟨m, hm, -, hplace⟩ := habove.leadsInto ht
    exact ⟨htext, standardView_of_some hdocument hd hread hl.ne_empty hplain, m, hm, hplace,
      fun hlink text => (htext text).trans (hasText_iff_holds hplace hlink)⟩
  · refine standardView_congr ht hroot htarget hown fun names above habove => ?_
    obtain ⟨l, -, -, hplace⟩ := habove.leadsInto ht
    obtain ⟨hlink, hentry⟩ := hentries names above _ habove hplace
    exact habove.read_congr ht ht' hroot htarget hplace hlink hentry

/-- A project that is reached over a link, with a document at its root and one below. The document
beside the project is not a part of it. -/
def linkedNotes (beside : ByteArray) : FileTree where
  entries := [([".context.md"], .file beside 0), (["home"], .directory),
    (["home", ".context.md"], .file "# home\n".toUTF8 0), (["home", "src"], .directory),
    (["home", "src", ".context.md"], .file "# src".toUTF8 0), (["p"], .link "home")]

section
variable (beside : ByteArray)

lemma find_linkedNotes : (linkedNotes beside).find ⟨"/p"⟩ = .ok (["home"], .directory) := by
  have hadmitted : (⟨"/p"⟩ : Path).IsAdmitted := by decide
  have hsegments : segments "/p" = ["p"] := by decide
  have htarget : segments "home" = ["home"] := by decide
  have hstart : startOf "home" [] = [] := rfl
  have hp : (linkedNotes beside).entryAt? ([] ++ ["p"]) = some (.link "home") := rfl
  have hhome : ∀ target, (linkedNotes beside).entryAt? ([] ++ ["home"]) ≠ some (.link target) :=
    nofun
  refine find_eq_ok_iff.mpr ⟨?_, rfl⟩
  rw [locate_of_admitted _ hadmitted, startOf_of_isAbsolute (by decide), hsegments, linkLimit,
    walk_of_link rfl (by decide) (by decide) (by decide) hp, htarget, hstart, List.append_nil,
    walk_of_entry rfl (by decide) (by decide) (by decide) hhome, walk_nil, List.nil_append]

variable {beside}

lemma read_linkedNotes (ht : (linkedNotes beside).WellFormed) (names : List String) {bytes : ByteArray}
    (hentry : (linkedNotes beside).entryAt? (["home"] ++ names ++ [fileName]) = some (.file bytes 0))
    (htext : String.fromUTF8? bytes = some text)
    (hsize : ((⟨"/p"⟩ : Path).follow (names ++ [fileName])).text.utf8ByteSize ≤ pathLimit) :
    Document.read (linkedNotes beside) ((⟨"/p"⟩ : Path).follow names) = .ok (some text) := by
  have hpath : pathIn ((⟨"/p"⟩ : Path).follow names) = Path.follow ⟨"/p"⟩ (names ++ [fileName]) :=
    (Path.follow_concat _ _ _).symm
  rw [List.append_assoc] at hentry
  have hfind := find_follow_of_entry ht (find_linkedNotes beside) hentry (by simp) hsize
  rw [read_eq_ok_some_iff, hpath]
  exact readText_eq_ok_iff.mpr ⟨_, bytes, 0, hfind, htext⟩

lemma resolvesTo_linkedNotes (ht : (linkedNotes beside).WellFormed) :
    (linkedNotes beside).ResolvesTo ⟨"/p"⟩ ["home"] .directory ∧
      (linkedNotes beside).ResolvesTo ⟨"/p/src"⟩ ["home", "src"] .directory := by
  have hroot := resolvesTo_of_find (find_linkedNotes beside) (by decide +kernel)
  have hsrc : (linkedNotes beside).entryAt? (["home"] ++ ["src"]) = some .directory := rfl
  have hpath : (⟨"/p/src"⟩ : Path) = Path.follow ⟨"/p"⟩ ["src"] := by decide
  rw [hpath]
  exact ⟨hroot, hroot.follow ht hsrc (by simp) (by decide +kernel)⟩

end

/-- The document of the directory is followed by that of the project. What is beside the project does
not show. -/
theorem standardView_linkedNotes :
    (linkedNotes "# a\n".toUTF8).WellFormed ∧
      standardView (linkedNotes "# a\n".toUTF8) ⟨"/p"⟩ ⟨"/p/src"⟩ =
        .ok "# src\n\n## Parent Context (.)\n\n# home\n" ∧
      standardView (linkedNotes "# b\n".toUTF8) ⟨"/p"⟩ ⟨"/p/src"⟩ =
        standardView (linkedNotes "# a\n".toUTF8) ⟨"/p"⟩ ⟨"/p/src"⟩ := by
  have ht : (linkedNotes "# a\n".toUTF8).WellFormed := by decide
  have ht' : (linkedNotes "# b\n".toUTF8).WellFormed := by decide
  have hown : ∀ {beside}, (linkedNotes beside).WellFormed →
      Document.read (linkedNotes beside) ⟨"/p/src"⟩ = .ok (some "# src") := by
    intro beside h
    exact read_linkedNotes h ["src"] rfl (by decide) (by decide +kernel)
  have hhome : ∀ {beside}, (linkedNotes beside).WellFormed →
      Document.read (linkedNotes beside) (Path.follow ⟨"/p"⟩ []) = .ok (some "# home\n") := by
    intro beside h
    exact read_linkedNotes h [] rfl (by decide) (by decide +kernel)
  obtain ⟨hroot, hsrc⟩ := resolvesTo_linkedNotes ht
  obtain ⟨hroot', hsrc'⟩ := resolvesTo_linkedNotes ht'
  have hbelow : LiesBelow (linkedNotes "# a\n".toUTF8) ⟨"/p"⟩ ⟨"/p/src"⟩ [] ⟨"/home"⟩ :=
    (liesBelow_iff ht).mpr ⟨["home"], "src", _, _, hroot, hsrc, by decide⟩
  obtain ⟨-, hshows, hdepends⟩ := standardView_shows ht ⟨"/p"⟩ ⟨"/p/src"⟩
  refine ⟨ht, ?_, (hdepends (linkedNotes "# b\n".toUTF8) ?_ ?_ ?_).1 ?_⟩
  · obtain ⟨-, -, habove⟩ := hshows _ (hown ht)
    rw [(habove [] _ _ hbelow (hhome ht)).2.1]
    decide
  · rw [hroot.realPath, hroot'.realPath]
  · rw [hsrc.realPath, hsrc'.realPath]
  · rw [hown ht, hown ht']
  · rintro names above ⟨top, place, last, htop, hplace, hparts, -⟩
    obtain rfl := Except.ok.inj (hroot.realPath.symm.trans htop)
    obtain rfl := Except.ok.inj (hsrc.realPath.symm.trans hplace)
    have hlength := congrArg List.length hparts
    have htwo : (pathOf ["home"]).parts.length = 2 := by decide
    have hthree : (pathOf ["home", "src"]).parts.length = 3 := by decide
    rw [hthree, List.length_append, List.length_append, htwo, List.length_map,
      List.length_singleton] at hlength
    obtain rfl : names = [] := List.length_eq_zero_iff.mp (by omega)
    rw [hhome ht, hhome ht']

/-- A project whose document is a link out of it. -/
def leakyNotes (outside : ByteArray) : FileTree where
  entries := [(["home"], .directory), (["home", ".context.md"], .link "../vault/.context.md"),
    (["home", "src"], .directory), (["home", "src", ".context.md"], .file "# src\n".toUTF8 0),
    (["vault"], .directory), (["vault", ".context.md"], .file outside 0)]

section
variable {outside : ByteArray}

lemma locate_leakyNotes (ht : (leakyNotes outside).WellFormed) :
    (leakyNotes outside).locate ⟨"/home/.context.md"⟩ = .ok ["vault", ".context.md"] := by
  have hadmitted : (⟨"/home/.context.md"⟩ : Path).IsAdmitted := by decide +kernel
  have hsegments : segments "/home/.context.md" = ["home", ".context.md"] := by decide
  have htarget : segments "../vault/.context.md" = ["..", "vault", ".context.md"] := by decide
  have hstart : startOf "../vault/.context.md" ["home"] = ["home"] := by decide
  have hdocument : (leakyNotes outside).entryAt? (["home"] ++ [".context.md"]) =
      some (.link "../vault/.context.md") := rfl
  have hhome : ∀ target, (leakyNotes outside).entryAt? ([] ++ ["home"]) ≠ some (.link target) :=
    nofun
  have htext : (leakyNotes outside).entryAt? ([] ++ ["vault", ".context.md"]) =
      some (.file outside 0) := rfl
  rw [locate_of_admitted _ hadmitted, startOf_of_isAbsolute (by decide), hsegments, linkLimit,
    walk_of_entry rfl (by decide) (by decide) (by decide +kernel) hhome, List.nil_append,
    walk_of_link rfl (by decide) (by decide) (by decide +kernel) hdocument, htarget, hstart,
    List.append_nil, walk_up rfl, List.dropLast_singleton]
  exact walk_down ht htext (by simp)

lemma standardView_leakyNotes (ht : (leakyNotes outside).WellFormed)
    (htext : String.fromUTF8? outside = some text) :
    standardView (leakyNotes outside) ⟨"/home"⟩ ⟨"/home/src"⟩ =
      .ok ("# src\n" ++ aboveSection [] text) := by
  have hhome : (⟨"/home"⟩ : Path) = pathOf ["home"] := by decide
  have hsrc : (⟨"/home/src"⟩ : Path) = pathOf ["home", "src"] := by decide
  have hnotes : pathIn ⟨"/home"⟩ = ⟨"/home/.context.md"⟩ := by decide
  have hsrcNotes : pathIn ⟨"/home/src"⟩ = pathOf ["home", "src", ".context.md"] := by decide
  have hroot : (leakyNotes outside).ResolvesTo ⟨"/home"⟩ ["home"] .directory := by
    rw [hhome]
    exact resolvesTo_of_find (find_pathOf ht rfl (by simp) (by decide +kernel)) (by decide +kernel)
  have htarget : (leakyNotes outside).ResolvesTo ⟨"/home/src"⟩ ["home", "src"] .directory := by
    rw [hsrc]
    exact resolvesTo_of_find (find_pathOf ht rfl (by simp) (by decide +kernel)) (by decide +kernel)
  have habove : parentWithinRoot? (leakyNotes outside) ⟨"/home"⟩ ⟨"/home/src"⟩ =
      some (Path.follow ⟨"/home"⟩ []) :=
    (parentWithinRoot?_of_resolvesTo ht hroot htarget).mpr ⟨[], "src", rfl, rfl⟩
  have hown : Document.read (leakyNotes outside) ⟨"/home/src"⟩ = .ok (some "# src\n") := by
    have hentry : (leakyNotes outside).entryAt? ["home", "src", ".context.md"] =
        some (.file "# src\n".toUTF8 0) := rfl
    rw [read_eq_ok_some_iff, hsrcNotes, readText_eq_ok_iff]
    exact ⟨_, _, 0, find_pathOf ht hentry nofun (by decide +kernel), fromUTF8?_toUTF8 _⟩
  have hread : Document.read (leakyNotes outside) (Path.follow ⟨"/home"⟩ []) = .ok (some text) := by
    rw [Path.follow_nil, read_eq_ok_some_iff, hnotes, readText_eq_ok_iff]
    exact ⟨_, outside, 0, find_eq_ok_iff.mpr ⟨locate_leakyNotes ht, rfl⟩, htext⟩
  rw [standardView_of_some hown habove hread (by decide) (by simp)]
  rfl

end

/-- Where the document of the project is a link, the view shows the text outside: a document that is
neither below the root nor that of the target decides what the view says. -/
theorem standardView_leaks :
    standardView (leakyNotes "secret\n".toUTF8) ⟨"/home"⟩ ⟨"/home/src"⟩ =
        .ok "# src\n\n## Parent Context (.)\n\nsecret\n" ∧
      standardView (leakyNotes "open\n".toUTF8) ⟨"/home"⟩ ⟨"/home/src"⟩ =
        .ok "# src\n\n## Parent Context (.)\n\nopen\n" ∧
      ∀ m, m ≠ ["vault", ".context.md"] → (leakyNotes "open\n".toUTF8).entryAt? m =
        (leakyNotes "secret\n".toUTF8).entryAt? m := by
  refine ⟨?_, ?_, fun m hm => ?_⟩
  · rw [standardView_leakyNotes (by decide) (fromUTF8?_toUTF8 _)]
    decide
  · rw [standardView_leakyNotes (by decide) (fromUTF8?_toUTF8 _)]
    decide
  · by_cases hroot : m = []
    · rw [hroot]
      rfl
    · have hother : (m == ["vault", ".context.md"]) = false := beq_eq_false_iff_ne.mpr hm
      simp only [entryAt?_of_ne_nil hroot, leakyNotes, List.lookup_cons, hother]

end DirectoryNotes.View
