import DirectoryNotes.Proofs.Directory.Reanalysis
import DirectoryNotes.Proofs.FileTree.Stores
import DirectoryNotes.Proofs.Plan

/-!
# Refreshing what changed

A refresh after files were stored analyses only the directories that the changed files lead to. No
document is out of date after it:

* `Stores.sameFiles`: a directory that got no visible file has the visible files that it had;
* `mem_affected_of_stored`: one that got a visible file is among those that are analysed;
* `refresh_affected_complete`: so every directory has the document of its record.
-/

namespace DirectoryNotes

open FileTree Document Analyzer

/-! ## Directories of stored files -/

section
variable {t t' : FileTree} {root d : Path} {l names : Location} {W : List Location}
  {filter : IgnoreFilter} {a : Analyzer}

/-- A directory that got no visible file has the visible files that it had. -/
lemma FileTree.Stores.sameFiles (h : t.Stores t' l W)
    (hnone : ∀ name, a.shows d name = true → names ++ [name] ∉ W) :
    a.SameFiles d (l ++ names) t t' := by
  intro name bytes seconds hshows
  refine h.file_iff fun w hw heq => hnone name hshows ?_
  rw [List.append_assoc] at heq
  rwa [List.append_cancel_left heq]

lemma includesPath_follow (hroot : root.text ≠ "") (hfilter : filter.root = root)
    (hn : ∀ n ∈ names, IsPlainName n) (isDirectory : Bool) :
    filter.includesPath (root.follow names) isDirectory =
      filter.includes (.ofNames names) isDirectory := by
  unfold IgnoreFilter.includesPath
  rw [hfilter, Path.relativeTo?_follow hroot hn]

lemma includes_ofNames_nil (filter : IgnoreFilter) (isDirectory : Bool) :
    filter.includes (.ofNames []) isDirectory = true := by
  unfold IgnoreFilter.includes
  rfl

/-- A directory that is shown and got a visible file is among those that changes lead to. -/
lemma mem_affected_of_stored {paths : List Path} {name : String} (ht : t'.IsProject root l)
    (hfilter : filter.root = root) (hstores : t.Stores t' l W) (hW : ∀ w ∈ W, w ≠ [])
    (hpaths : Spells root l W paths) (hshown : IsShown t' filter root l names)
    (hdirectory : t'.isDirectory (root.follow names) = true) (hmem : names ++ [name] ∈ W)
    (hvisible : FileName.isHidden name = false)
    (hincluded : filter.includesPath (root.follow (names ++ [name])) false = true) :
    root.follow names ∈ affectedDirectories t' root filter paths := by
  rw [includesPath_follow (text_ne_empty_of_find ht.root) hfilter (hstores.isPlainName hmem)]
    at hincluded
  refine (mem_affectedDirectories_iff ht hW hstores.stored hpaths).mpr
    ⟨names ++ [name], hmem, by simp, ?_, hincluded, ?_, hdirectory⟩
  · intro n hn
    rcases List.mem_append.mp hn with hn | hn
    · exact hshown.visible n hn
    · exact List.mem_singleton.mp hn ▸ hvisible
  · rw [List.dropLast_concat]
    by_cases hempty : names = []
    · -- the root is never left out
      rw [hempty]
      exact includes_ofNames_nil filter true
    · exact hshown.included hempty

end

/-! ## After the refresh -/

section
variable {t t' : FileTree} {root d : Path} {l : Location} {W : List Location}
  {filter : IgnoreFilter} {c : Configuration} {paths : List Path}

/-- The directories that changes lead to are the root continued by plain names. -/
lemma exists_affected_eq_map (ht : t'.IsProject root l) (hstores : t.Stores t' l W)
    (hW : ∀ w ∈ W, w ≠ []) (hpaths : Spells root l W paths) :
    ∃ below : List Location, affectedDirectories t' root filter paths = below.map root.follow ∧
      ∀ names ∈ below, ∀ n ∈ names, IsPlainName n := by
  refine Path.exists_map_follow fun d hd => ?_
  obtain ⟨w, hw, rfl, -⟩ := (mem_affectedDirectories_iff ht hW hstores.stored hpaths).mp hd
  exact ⟨w.dropLast, rfl, fun n hn =>
    hstores.isPlainName hw n ((List.dropLast_sublist w).subset hn)⟩

lemma exists_of_forall₂ {α β : Type} {R : α → β → Prop} {xs : List α} {ys : List β} {x : α}
    (h : List.Forall₂ R xs ys) (hx : x ∈ xs) : ∃ y ∈ ys, R x y := by
  induction h with
  | nil => cases hx
  | cons hR _ ih =>
    rcases List.mem_cons.mp hx with rfl | hx
    · exact ⟨_, List.mem_cons_self, hR⟩
    · obtain ⟨y, hy, hxy⟩ := ih hx
      exact ⟨y, List.mem_cons_of_mem _ hy, hxy⟩

/-- Where every directory gives a record whose document can be written, every analysis succeeds. -/
lemma results_of_yields {directories : List Location} (ht : t.IsProject root l)
    (hn : ∀ names ∈ directories, ∀ n ∈ names, IsPlainName n)
    (hyields : ∀ names ∈ directories, ∃ r, (offline c filter).Yields t root l names r) :
    ∀ o ∈ ((offline c filter).analyzeEach t (directories.map root.follow)).2,
      ∃ r, o.result = .ok r := by
  intro o ho
  obtain ⟨hresults, -⟩ := (Reached.start (a := offline c filter) ht).run ht hn
  obtain ⟨names, hmem, hresult⟩ := exists_of_forall₂ hresults.flip ho
  obtain ⟨r, hr⟩ := hyields names hmem
  exact ⟨r, (hresult r).mpr hr⟩

/-- A document that was written is there when everything is done. -/
lemma read_of_reached {below : List Location} {names : Location} {last : FileTree}
    {r : DirectoryRecord} (ht : t.IsProject root l)
    (h : (offline c filter).Reached t root l below last) (hmem : names ∈ below)
    (hn : ∀ n ∈ names, IsPlainName n) (hr : (offline c filter).Yields t root l names r) :
    Document.read last (root.follow names) = .ok (some (render r)) := by
  obtain ⟨k, hk⟩ := exists_record_iff.mp ⟨_, hr.record⟩
  obtain rfl := ht.location hn hk
  rw [read_eq_some_iff (h.same.keepsWays.find_directory hk)
    (h.project.linkFree_names names [fileName])]
  exact ⟨isAdmitted_pathIn hr.admitted, _, _, h.documents names hmem r hr, fromUTF8?_bytes r⟩

/-- A document of a directory that was not analysed is the one that stood there before the files
were stored. -/
lemma read_of_not_stored {below : List Location} {names : Location} {last : FileTree}
    {text : String} (ht : t.IsProject root l) (hstores : t.Stores t' l W)
    (hplaces : ∀ w ∈ W, ¬IsPlace (l ++ w)) (h : (offline c filter).Reached t' root l below last)
    (hd : t.find (root.follow names) = .ok (l ++ names, .directory)) (hnot : names ∉ below)
    (hread : Document.read t (root.follow names) = .ok (some text)) :
    Document.read last (root.follow names) = .ok (some text) := by
  obtain ⟨hadmitted, bytes, seconds, hentry, htext⟩ :=
    (read_eq_some_iff hd (ht.linkFree_names names [fileName])).mp hread
  have hlast : last.entryAt? (l ++ names ++ [fileName]) = some (.file bytes seconds) := by
    -- it is no file that was stored, no draft, and no document that was written since
    rw [h.elsewhere]
    · refine (hstores.file_iff fun w hw heq => hplaces w hw ?_).mpr hentry
      exact heq ▸ isPlace_fileName (l ++ names)
    · exact fun other _ => document_ne_draft _ _
    · rintro other hother r - heq
      have hnames : names = other := by simpa using heq
      exact hnot (hnames ▸ hother)
  have hways := h.same.keepsWays.find_directory (hstores.keepsWays.find_directory hd)
  exact (read_eq_some_iff hways (h.project.linkFree_names names [fileName])).mpr
    ⟨hadmitted, bytes, seconds, hlast, htext⟩

/-- A directory in which nothing that it shows was stored has the record that it had. -/
lemma record_of_not_stored {names : Location} (ht : t.IsProject root l) (hstores : t.Stores t' l W)
    (hd : t.find (root.follow names) = .ok (l ++ names, .directory))
    (hnot : ∀ name, FileName.isHidden name = false →
      filter.includesPath (root.follow (names ++ [name])) false = true → names ++ [name] ∉ W) :
    (offline c filter).record t' (root.follow names) =
      (offline c filter).record t (root.follow names) := by
  have ht' := hstores.isProject ht
  have hsame : (offline c filter).SameFiles (root.follow names) (l ++ names) t t' := by
    refine hstores.sameFiles fun name hshows => ?_
    simp only [shows, Bool.and_eq_true, Bool.not_eq_true', ← Path.follow_concat] at hshows
    exact hnot name hshows.1 hshows.2
  exact record_congr hd (hstores.keepsWays.find_directory hd) ht.wellFormed ht'.wellFormed
    (ht.linkFree_names names) (ht'.linkFree_names names) hsame

lemma not_isPlace_append {w : Location} (hne : w ≠ []) (h : ¬IsPlace w) : ¬IsPlace (l ++ w) := by
  unfold IsPlace at h ⊢
  rwa [List.getLast?_append_of_ne_nil _ hne]

/-- A refresh of what changed loses nothing. The documents of a project are those of its records,
files are stored in it, and the directories that they lead to are analysed. Then every directory of
the walk that was in it before, or that directly holds a stored file which is shown (and whose path
is not too long to be followed), has the document of the record that it has now. -/
theorem refresh_affected_complete (ht : t.IsProject root l) (hfilter : filter.root = root)
    (hfresh : ∀ d ∈ walk t filter root, ∃ r, (offline c filter).record t d = .ok (r, []) ∧
      Document.read t d = .ok (some (render r)))
    (hstores : t.Stores t' l W) (hW : ∀ w ∈ W, w ≠ [] ∧ ¬IsPlace w)
    (hpaths : Spells root l W paths)
    (hwritten : ∀ o ∈ ((offline c filter).analyzeEach t'
      (affectedDirectories t' root filter paths)).2, ∃ r, o.result = .ok r)
    (hd : d ∈ walk t' filter root)
    (hcovered : d ∈ walk t filter root ∨ t'.isDirectory d = true ∧
      ∃ names name, names ++ [name] ∈ W ∧ d = root.follow names ∧
        FileName.isHidden name = false ∧
        filter.includesPath (root.follow (names ++ [name])) false = true) :
    ∃ r, (offline c filter).record t' d = .ok (r, []) ∧
      Document.read ((offline c filter).analyzeEach t'
        (affectedDirectories t' root filter paths)).1 d = .ok (some (render r)) := by
  have ht' := hstores.isProject ht
  have hne : ∀ w ∈ W, w ≠ [] := fun w hw => (hW w hw).1
  obtain ⟨names, rfl, hshown⟩ := mem_walk ht' hd
  obtain ⟨below, hbelow, hplain⟩ : ∃ below : List Location,
      affectedDirectories t' root filter paths = below.map root.follow ∧
        ∀ names ∈ below, ∀ n ∈ names, IsPlainName n :=
    exists_affected_eq_map ht' hstores hne hpaths
  have hbelow_of : root.follow names ∈ affectedDirectories t' root filter paths → names ∈ below := by
    rw [hbelow, List.mem_map]
    rintro ⟨other, hother, heq⟩
    rwa [← Path.follow_inj (hplain other hother) hshown.plain (congrArg Path.parts heq)]
  -- the walk and the changes come to a directory on different ways, but its names are the same
  have hstored : ∀ name, names ++ [name] ∈ W → t'.isDirectory (root.follow names) = true →
      FileName.isHidden name = false →
      filter.includesPath (root.follow (names ++ [name])) false = true → names ∈ below :=
    fun name hmem hdirectory hvisible hincluded => hbelow_of
      (mem_affected_of_stored ht' hfilter hstores hne hpaths hshown hdirectory hmem hvisible
        hincluded)
  rw [hbelow] at hwritten ⊢
  obtain ⟨hresults, hreached⟩ := (Reached.start ht').run ht' hplain
  rw [List.nil_append] at hreached
  by_cases hmem : names ∈ below
  · -- it was analysed, and later analyses leave its document alone
    obtain ⟨o, ho, hresult⟩ := exists_of_forall₂ hresults hmem
    obtain ⟨r, hr⟩ := hwritten o ho
    have hyields := (hresult r).mp hr
    exact ⟨r, hyields.record, read_of_reached ht' hreached hmem hshown.plain hyields⟩
  · -- nothing that the directory shows was stored, so it was walked before and is as it was
    have hwalked : root.follow names ∈ walk t filter root := by
      refine hcovered.resolve_right ?_
      rintro ⟨hdirectory, other, name, hw, heq, hvisible, hincluded⟩
      have hother : ∀ n ∈ other, IsPlainName n := fun n hn =>
        hstores.isPlainName hw n (List.mem_append_left _ hn)
      obtain rfl := Path.follow_inj hshown.plain hother (congrArg Path.parts heq)
      exact hmem (hstored name hw hdirectory hvisible hincluded)
    obtain ⟨r, hrecord, hread⟩ := hfresh _ hwalked
    obtain ⟨k, hk⟩ := exists_record_iff.mp ⟨_, hrecord⟩
    obtain rfl := ht.location hshown.plain hk
    have hdirectory : t'.isDirectory (root.follow names) = true := by
      rw [isDirectory, hstores.keepsWays.find_directory hk]
      rfl
    have hunchanged := record_of_not_stored (c := c) ht hstores hk fun name hvisible hincluded hw =>
      hmem (hstored name hw hdirectory hvisible hincluded)
    have hplaces : ∀ w ∈ W, ¬IsPlace (l ++ w) := fun w hw =>
      not_isPlace_append (hW w hw).1 (hW w hw).2
    exact ⟨r, hunchanged.trans hrecord,
      read_of_not_stored ht hstores hplaces hreached hk hmem hread⟩

end

/-! ## One note more -/

/-- A root with one file. -/
def noteProject : FileTree where
  entries := [(["notes.md"], .file "One".toUTF8 1)]

/-- The root with its document. -/
def notedProject : FileTree := ((offline {} ⟨⟨"/"⟩, []⟩).analyze noteProject ⟨"/"⟩).tree

/-- The root with its document and a file that the document does not know. -/
def grownProject : FileTree := notedProject.put ["more.md"] (.file "Two".toUTF8 2)

lemma isProject_noteProject : noteProject.IsProject ⟨"/"⟩ [] :=
  ⟨by decide +kernel, find_slash _, linkFreeBelow_of_entries (by decide +kernel) _⟩

lemma analyzed_noteProject : (offline {} ⟨⟨"/"⟩, []⟩).Analyzed noteProject ⟨"/"⟩ [] []
    ((offline {} ⟨⟨"/"⟩, []⟩).analyze noteProject ⟨"/"⟩) :=
  analyzed isProject_noteProject (by simp)

lemma yields_of_root {t : FileTree} (ht : t.IsProject ⟨"/"⟩ [])
    (hdraft : t.entryAt? [draftName] ≠ some .directory)
    (hplace : t.entryAt? [fileName] ≠ some .directory) :
    ∃ r, (offline {} ⟨⟨"/"⟩, []⟩).Yields t ⟨"/"⟩ [] [] r :=
  exists_yields ht.root (by decide +kernel) hdraft hplace

lemma yields_noteProject :
    ∃ r, (offline {} ⟨⟨"/"⟩, []⟩).Yields noteProject ⟨"/"⟩ [] [] r := by
  refine yields_of_root isProject_noteProject ?_ ?_
  · exact fun h => nomatch (entryAt?_concat_eq_none (by decide +kernel) []).symm.trans h
  · exact fun h => nomatch (entryAt?_concat_eq_none (by decide +kernel) []).symm.trans h

lemma eq_nil_of_notedProject {m : Location} (h : notedProject.entryAt? m = some .directory) :
    m = [] := by
  refine Classical.byContradiction fun hm => ?_
  have hnote := analyzed_noteProject.same.symm.keepsWays.directory m h
  simpa [noteProject] using mem_of_entryAt? hm hnote

lemma fresh_notedProject : ∀ d ∈ walk notedProject ⟨⟨"/"⟩, []⟩ ⟨"/"⟩, ∃ r,
    (offline {} ⟨⟨"/"⟩, []⟩).record notedProject d = .ok (r, []) ∧
      Document.read notedProject d = .ok (some (render r)) := by
  intro d hd
  have hanalyzed := analyzed_noteProject
  obtain ⟨names, rfl, hshown⟩ := mem_walk hanalyzed.project hd
  obtain rfl : names = [] := eq_nil_of_notedProject hshown.directory
  obtain ⟨r, hr⟩ := yields_noteProject
  have hr' := (yields_iff isProject_noteProject hanalyzed.same hanalyzed.project (by simp)).mpr hr
  have hreached : (offline {} ⟨⟨"/"⟩, []⟩).Reached noteProject ⟨"/"⟩ [] [[]] notedProject :=
    ((Reached.start isProject_noteProject).step isProject_noteProject (by simp)).2
  exact ⟨r, hr'.record, read_of_reached isProject_noteProject hreached (by simp) (by simp) hr⟩

lemma stores_grownProject : notedProject.Stores grownProject [] [["more.md"]] := by
  have hproject : notedProject.IsProject ⟨"/"⟩ [] := analyzed_noteProject.project
  have hname : IsEntryName "more.md" := by decide +kernel
  have hvacant : notedProject.Vacant ["more.md"] :=
    ⟨fun h => absurd (eq_nil_of_notedProject h) (by simp), hproject.linkFree ["more.md"]⟩
  exact stores_put hproject.wellFormed (entryAt?_nil _) hname hvacant

lemma eq_nil_of_grownProject {m : Location} (h : grownProject.entryAt? m = some .directory) :
    m = [] := by
  unfold grownProject at h
  rw [entryAt?_put (by simp)] at h
  split at h
  · cases h
  · exact eq_nil_of_notedProject h

/-- The document of the root is the one of its record with the new file. -/
theorem refresh_grownProject : notedProject.Stores grownProject [] [["more.md"]] ∧
    ∃ r, (offline {} ⟨⟨"/"⟩, []⟩).record grownProject ⟨"/"⟩ = .ok (r, []) ∧
      Document.read ((offline {} ⟨⟨"/"⟩, []⟩).analyzeEach grownProject
        (affectedDirectories grownProject ⟨"/"⟩ ⟨⟨"/"⟩, []⟩ [⟨"/more.md"⟩])).1 ⟨"/"⟩ =
          .ok (some (render r)) := by
  have hproject := analyzed_noteProject.project
  have hstores := stores_grownProject
  have hgrown := hstores.isProject hproject
  have hspells : Spells ⟨"/"⟩ [] [["more.md"]] [⟨"/more.md"⟩] :=
    spells_singleton (.inl (by decide))
  have hwritten : ∀ o ∈ ((offline {} ⟨⟨"/"⟩, []⟩).analyzeEach grownProject
      (affectedDirectories grownProject ⟨"/"⟩ ⟨⟨"/"⟩, []⟩ [⟨"/more.md"⟩])).2,
      ∃ r, o.result = .ok r := by
    -- the only file that was stored lies in the root
    have hroot : affectedDirectories grownProject ⟨"/"⟩ ⟨⟨"/"⟩, []⟩ [⟨"/more.md"⟩] =
        ((affectedDirectories grownProject ⟨"/"⟩ ⟨⟨"/"⟩, []⟩ [⟨"/more.md"⟩]).map
          fun _ => []).map (Path.follow ⟨"/"⟩) := by
      rw [List.map_map]
      refine (List.map_id _).symm.trans (List.map_congr_left fun d hd => ?_)
      obtain ⟨w, hw, rfl, -⟩ :=
        (mem_affectedDirectories_iff hgrown (by simp) hstores.stored hspells).mp hd
      rw [List.mem_singleton.mp hw]
      rfl
    have hyields := yields_of_root hgrown
      (fun h => absurd (eq_nil_of_grownProject h) (by simp))
      (fun h => absurd (eq_nil_of_grownProject h) (by simp))
    rw [hroot]
    refine results_of_yields hgrown (fun names hmem => ?_) fun names hmem => ?_
    · obtain ⟨-, -, rfl⟩ := List.mem_map.mp hmem
      simp
    · obtain ⟨-, -, rfl⟩ := List.mem_map.mp hmem
      exact hyields
  exact ⟨hstores, refresh_affected_complete hproject rfl fresh_notedProject hstores
    (by simp [IsPlace]; decide +kernel) hspells hwritten (root_mem_walk hgrown)
    (.inl (root_mem_walk hproject))⟩

end DirectoryNotes
