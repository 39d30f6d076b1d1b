import DirectoryNotes.Proofs.Directory.Reanalysis

/-!
# What analyses leave behind

A command analyses directories one after the other, with whatever help it has. Each analysis puts one
document into its directory or changes nothing at all, so the tree that is left differs from the first
one in the documents of these directories only:

* `FileTree.LiesAt`: a directory of a project, given by a path, and its names below the root;
* `Analyzer.analyze_once`: what one analysis leaves;
* `Analyzer.Leaves`, `leaves_analyzeEach`: what many of them leave, with the record that each directory
  got.
-/

namespace DirectoryNotes

open FileTree Document

/-! ## Directories of a project -/

namespace FileTree

variable {t t' : FileTree} {root d d' : Path} {l names names' : Location}

/-- A path says the directory of these names below the root. It need not be a path that can be
followed, but where it is it leads there. -/
structure LiesAt (t : FileTree) (root : Path) (l : Location) (d : Path) (names : Location) :
    Prop where
  plain : ∀ n ∈ names, IsPlainName n
  parts : d.parts = (root.follow names).parts
  location : ∀ k, t.find d = .ok (k, .directory) → k = l ++ names

/-- Paths of the same parts say the same directory. -/
lemma LiesAt.names_eq (h : t.LiesAt root l d names) (h' : t'.LiesAt root l d' names')
    (hparts : d.parts = d'.parts) : names = names' :=
  Path.follow_inj h.plain h'.plain (by rw [← h.parts, ← h'.parts, hparts])

lemma LiesAt.sameButDocuments (h : t.LiesAt root l d names) (hsame : SameButDocuments t t') :
    t'.LiesAt root l d names :=
  ⟨h.plain, h.parts, fun k hk => h.location k (hsame.symm.keepsWays.find_directory hk)⟩

/-- The root continued by names says what it leads to. -/
lemma IsProject.liesAt_follow (ht : t.IsProject root l) (hn : ∀ n ∈ names, IsPlainName n) :
    t.LiesAt root l (root.follow names) names :=
  ⟨hn, rfl, fun _ hk => ht.location hn hk⟩

end FileTree

/-! ## One analysis -/

namespace Analyzer

variable {a : Analyzer} {t last : FileTree} {root d : Path} {l names : Location}

/-- What comes of the analysis of one directory, apart from the questions that were put. -/
inductive Once (t : FileTree) (l : Location) (d : Path) (names : Location) (o : Outcome) : Prop
  /-- It failed, and everything stands as it stood. -/
  | failed (f : Failure) : o.result = .error f →
      (∀ m, o.tree.entryAt? m = t.entryAt? m) → Once t l d names o
  /-- The document of the record was put into the directory, and everything else stands as it
  stood. -/
  | documented (r : DirectoryRecord) : o.result = .ok r → r.path = d →
      t.find d = .ok (l ++ names, .directory) → (draftIn d).IsAdmitted →
      (∀ m, o.tree.entryAt? m = if m = l ++ names ++ [fileName]
        then some (.file (Document.bytes r) t.clock) else t.entryAt? m) → Once t l d names o

/-- An analysis in a project without drafts documents its directory, or leaves everything as it is. -/
theorem analyze_once (ht : t.IsProject root l)
    (hdrafts : ∀ names, t.entryAt? (l ++ names ++ [draftName]) = none)
    (hd : t.LiesAt root l d names) :
    (a.analyze t d).tree.IsProject root l ∧ SameButDocuments t (a.analyze t d).tree ∧
      Once t l d names (a.analyze t d) := by
  have hlink : ∀ k, t.find d = .ok (k, .directory) →
      ∀ target, t.entryAt? (k ++ [draftName]) ≠ some (.link target) := by
    intro k hk
    obtain rfl := hd.location k hk
    exact ht.linkFree_names names [draftName]
  -- where there was no draft, writing one and taking it away again shows nowhere
  have hdraft : ∀ r m, (withoutDraft t (l ++ names) r).entryAt? m = t.entryAt? m := by
    intro r m
    rw [entryAt?_withoutDraft]
    split
    · next heq => rw [heq, hdrafts]
    · rfl
  rcases analyze_cases (a := a) hlink with
    ⟨f, -, heq⟩ | ⟨r, questions, k, written, -, hpath, hk, hwritten, heq⟩
  · rw [heq]
    exact ⟨ht, .refl t, .failed f rfl fun _ => rfl⟩
  · obtain rfl := hd.location k hk
    have hsame := hwritten.sameButDocuments (ht.linkFree_names names)
    have hproject := ht.sameButDocuments hsame
      (hwritten.wellFormed ht.wellFormed (find_eq_ok_iff.mp hk).2)
    rw [heq]
    refine ⟨hproject, hsame, ?_⟩
    cases hwritten with
    | refused f _ => exact .failed f rfl fun _ => rfl
    | obstructed f _ _ _ => exact .failed f rfl fun m => hdraft r m
    | placed hadmitted _ _ =>
      refine .documented r rfl hpath hk (hpath ▸ hadmitted) fun m => ?_
      rw [entryAt?_put (by simp), hdraft]

/-! ## Many analyses -/

/-- How a directory stands in the end: with the document of the record that was made for it, or, where
its analysis failed, with every file as it was. -/
inductive Settled (t : FileTree) (root : Path) (l : Location) (last : FileTree) (d : Path)
    (o : Outcome) : Prop
  | documented (r : DirectoryRecord) : o.result = .ok r → r.path = d →
      Document.read last d = .ok (some (render r)) → Settled t root l last d o
  | failed (f : Failure) : o.result = .error f →
      (∀ names, t.LiesAt root l d names →
        ∀ name, last.entryAt? (l ++ names ++ [name]) = t.entryAt? (l ++ names ++ [name])) →
      Settled t root l last d o

/-- What analyses of directories leave of a tree. -/
structure Leaves (t : FileTree) (root : Path) (l : Location) (directories : List Path)
    (last : FileTree) (outcomes : List Outcome) : Prop where
  project : last.IsProject root l
  same : SameButDocuments t last
  /-- Only documents in these directories differ. -/
  changed : ∀ m, last.entryAt? m ≠ t.entryAt? m → ∃ d ∈ directories, ∃ names,
    t.LiesAt root l d names ∧ t.find d = .ok (l ++ names, .directory) ∧
      m = l ++ names ++ [fileName] ∧
      ∃ bytes seconds, last.entryAt? m = some (.file bytes seconds)
  /-- There are no drafts. -/
  drafts : ∀ names, last.entryAt? (l ++ names ++ [draftName]) = none
  /-- Each directory stands as its outcome says. -/
  length : outcomes.length = directories.length
  settled : ∀ d o, (d, o) ∈ directories.zip outcomes → Settled t root l last d o

/-- Nothing differs in a directory that is none of those that are analysed. -/
lemma Leaves.entryAt?_eq {directories : List Path} {outcomes : List Outcome}
    (h : Leaves t root l directories last outcomes) (hd : t.LiesAt root l d names)
    (hother : ∀ d' ∈ directories, d.parts ≠ d'.parts) (name : String) :
    last.entryAt? (l ++ names ++ [name]) = t.entryAt? (l ++ names ++ [name]) := by
  refine Classical.byContradiction fun hne => ?_
  obtain ⟨d', hmem, names', hd', -, heq, -⟩ := h.changed _ hne
  have hnames : names = names' := by
    have hfront := (List.append_inj' heq rfl).1
    exact List.append_cancel_left hfront
  subst hnames
  exact hother d' hmem (hd.parts.trans hd'.parts.symm)

/-- What one analysis changes shows only as the document of its directory. -/
lemma Once.entryAt?_eq {o : Outcome} (h : Once t l d names o) {m : Location}
    (hm : m ≠ l ++ names ++ [fileName]) : o.tree.entryAt? m = t.entryAt? m := by
  cases h with
  | failed f hresult htree => exact htree m
  | documented r hresult hpath hfind hadmitted htree => rw [htree, if_neg hm]

/-- Where one analysis made a difference, it put the document of its directory. -/
lemma Once.document_of_ne {o : Outcome} (h : Once t l d names o) {m : Location}
    (hm : o.tree.entryAt? m ≠ t.entryAt? m) :
    t.find d = .ok (l ++ names, .directory) ∧ m = l ++ names ++ [fileName] ∧
      ∃ bytes seconds, o.tree.entryAt? m = some (.file bytes seconds) := by
  cases h with
  | failed f hresult htree => exact absurd (htree m) hm
  | documented r hresult hpath hfind hadmitted htree =>
    by_cases heq : m = l ++ names ++ [fileName]
    · exact ⟨hfind, heq, _, _, by rw [htree, if_pos heq]⟩
    · exact absurd (by rw [htree, if_neg heq]) hm

/-- A directory stands as its analysis left it, if nothing in it was touched since. -/
lemma Once.settled {o : Outcome} (h : Once t l d names o) (hd : t.LiesAt root l d names)
    (hlast : last.IsProject root l) (hsame : SameButDocuments t last)
    (hdirectory : ∀ name, last.entryAt? (l ++ names ++ [name]) =
      o.tree.entryAt? (l ++ names ++ [name])) : Settled t root l last d o := by
  cases h with
  | failed f hresult htree =>
    refine .failed f hresult fun names' hlies name => ?_
    rw [← hd.names_eq hlies rfl, hdirectory, htree]
  | documented r hresult hpath hfind hadmitted htree =>
    refine .documented r hresult hpath ?_
    have hstill := hsame.keepsWays.find_directory hfind
    rw [read_eq_some_iff hstill (hlast.linkFree_names names [fileName])]
    exact ⟨isAdmitted_pathIn hadmitted, _, _, by rw [hdirectory, htree, if_pos rfl],
      fromUTF8?_bytes r⟩

/-- A directory that is settled after another one was analysed is settled after both. -/
lemma Settled.after {d' : Path} {o o' : Outcome} (h : Settled o.tree root l last d' o')
    (honce : Once t l d names o) (hd : t.LiesAt root l d names)
    (hsame : SameButDocuments t o.tree) (hne : d.parts ≠ d'.parts) :
    Settled t root l last d' o' := by
  cases h with
  | documented r hresult hpath hread => exact .documented r hresult hpath hread
  | failed f hresult hunchanged =>
    refine .failed f hresult fun names' hlies name => ?_
    rw [hunchanged names' (hlies.sameButDocuments hsame)]
    refine honce.entryAt?_eq fun heq => ?_
    have hnames := List.append_cancel_left (List.append_inj' heq rfl).1
    subst hnames
    exact hne (hd.parts.trans hlies.parts.symm)

/-- One analysis more, before the others. -/
theorem Leaves.cons {o : Outcome} {rest : List Path} {outcomes : List Outcome}
    (h : Leaves o.tree root l rest last outcomes) (hd : t.LiesAt root l d names)
    (hsame : SameButDocuments t o.tree) (honce : Once t l d names o)
    (hfirst : ∀ d' ∈ rest, d.parts ≠ d'.parts) :
    Leaves t root l (d :: rest) last (o :: outcomes) := by
  constructor
  case project => exact h.project
  case same => exact hsame.trans h.same
  case drafts => exact h.drafts
  case length => rw [List.length_cons, List.length_cons, h.length]
  case changed =>
    intro m hm
    by_cases hlast : last.entryAt? m = o.tree.entryAt? m
    · -- then it was this analysis that made the difference
      rw [hlast] at hm ⊢
      obtain ⟨hfind, heq, hfile⟩ := honce.document_of_ne hm
      exact ⟨d, List.mem_cons_self, names, hd, hfind, heq, hfile⟩
    · obtain ⟨d', hmem, names', hlies, hfind, heq, hfile⟩ := h.changed m hlast
      exact ⟨d', List.mem_cons_of_mem _ hmem, names', hlies.sameButDocuments hsame.symm,
        hsame.symm.keepsWays.find_directory hfind, heq, hfile⟩
  case settled =>
    intro d' o' hmem
    rw [List.zip_cons_cons] at hmem
    rcases List.mem_cons.mp hmem with heq | hmem
    · obtain ⟨rfl, rfl⟩ := Prod.mk.inj heq
      exact honce.settled hd h.project (hsame.trans h.same)
        (h.entryAt?_eq (hd.sameButDocuments hsame) hfirst)
    · exact (h.settled d' o' hmem).after honce hd hsame (hfirst d' (List.of_mem_zip hmem).1)

/-- Analyses of directories of a project without drafts, no two of the same parts. -/
theorem leaves_analyzeEach {directories : List Path} (ht : t.IsProject root l)
    (hdrafts : ∀ names, t.entryAt? (l ++ names ++ [draftName]) = none)
    (hlies : ∀ d ∈ directories, ∃ names, t.LiesAt root l d names)
    (hdistinct : directories.Pairwise fun d d' => d.parts ≠ d'.parts) :
    Leaves t root l directories (a.analyzeEach t directories).1 (a.analyzeEach t directories).2 := by
  induction directories generalizing t with
  | nil => exact ⟨ht, .refl t, fun m hm => absurd rfl hm, hdrafts, rfl, by simp⟩
  | cons d rest ih =>
    obtain ⟨names, hd⟩ := hlies d List.mem_cons_self
    obtain ⟨hfirst, hrest⟩ := List.pairwise_cons.mp hdistinct
    obtain ⟨hproject, hsame, honce⟩ := analyze_once (a := a) ht hdrafts hd
    have hdrafts' : ∀ names, (a.analyze t d).tree.entryAt? (l ++ names ++ [draftName]) = none := by
      intro names'
      rw [honce.entryAt?_eq (document_ne_draft _ _).symm, hdrafts]
    refine (ih hproject hdrafts' (fun d' hmem => ?_) hrest).cons hd hsame honce hfirst
    obtain ⟨names', hlies'⟩ := hlies d' (List.mem_cons_of_mem _ hmem)
    exact ⟨names', hlies'.sameButDocuments hsame⟩

end Analyzer

end DirectoryNotes
