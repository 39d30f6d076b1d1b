import DirectoryNotes.Proofs.Directory.VisibleFiles
import DirectoryNotes.Proofs.Document.Write
import DirectoryNotes.Proofs.FileTree.Naming
import Mathlib.Data.List.Forall2

/-!
# Analysing many directories

An analysis does not see what analyses write. Every directory of a project therefore gets the record
that it would have got first, in whichever order the directories come and however often:

* `Analyzer.Yields`: what an analysis gives in a tree;
* `Analyzer.analyzed_of_nobody`: all that comes of one analysis;
* `Analyzer.Steady`: the analyses to which documents make no difference, so that what they give stays
  the same (`Steady.yields_iff`). Those that ask nobody are such;
* `Analyzer.Reached`: what is true of a tree that analyses have led to. `Steady.step` is one analysis
  and `Steady.run` many of them;
* `analyzeEach_order_irrelevant`: the set of directories decides what the tree holds in the end.
-/

namespace DirectoryNotes

open FileTree Document

/-- A project is one whatever documents stand in it. -/
lemma FileTree.IsProject.sameButDocuments {t t' : FileTree} {root : Path} {l : Location}
    (ht : t.IsProject root l) (hsame : SameButDocuments t t') (hwell : t'.WellFormed) :
    t'.IsProject root l :=
  ⟨hwell, hsame.keepsWays.find_directory ht.root, hsame.keepsWays.linkFreeBelow ht.linkFree⟩

/-! ## One analysis -/

namespace Analyzer

variable {t t₀ t₁ t₂ : FileTree} {root : Path} {l names : Location} {c : Configuration}
  {filter : IgnoreFilter} {r : DirectoryRecord}

/-- An analysis of a directory of the project gives this record, and its document can be written. -/
structure Yields (a : Analyzer) (t : FileTree) (root : Path) (l names : Location)
    (r : DirectoryRecord) : Prop where
  record : a.record t (root.follow names) = .ok (r, [])
  admitted : (draftIn (root.follow names)).IsAdmitted
  draft : t.entryAt? (l ++ names ++ [draftName]) ≠ some .directory
  place : t.entryAt? (l ++ names ++ [fileName]) ≠ some .directory

/-- The tree with the document of a record in its place and no draft beside it. -/
def documented (t : FileTree) (l names : Location) (r : DirectoryRecord) : FileTree :=
  (withoutDraft t (l ++ names) r).put (l ++ names ++ [fileName]) (.file (Document.bytes r) t.clock)

lemma entryAt?_documented (m : Location) : (documented t l names r).entryAt? m =
    if m = l ++ names ++ [fileName] then some (.file (Document.bytes r) t.clock)
    else if m = l ++ names ++ [draftName] then none
    else t.entryAt? m := by
  unfold documented
  rw [entryAt?_put (by simp), entryAt?_withoutDraft]

/-- An analysis fails to make a record, or makes one and writes its document. -/
lemma analyze_cases {a : Analyzer} {d : Path} (hlink : ∀ k, t.find d = .ok (k, .directory) →
      ∀ target, t.entryAt? (k ++ [draftName]) ≠ some (.link target)) :
    (∃ f, a.record t d = .error f ∧ a.analyze t d = ⟨t, [], .error f⟩) ∨
    ∃ r questions k written, a.record t d = .ok (r, questions) ∧ r.path = d ∧
      t.find d = .ok (k, .directory) ∧ Written t k r written ∧
      a.analyze t d = ⟨written.1, questions, written.2.map fun _ => r⟩ := by
  cases hrecord : a.record t d with
  | error f => exact .inl ⟨f, rfl, by rw [analyze, hrecord]⟩
  | ok found =>
    obtain ⟨r, questions⟩ := found
    have hpath : r.path = d := path_of_record hrecord
    obtain ⟨k, hk⟩ := exists_record_iff.mp ⟨_, hrecord⟩
    have hwritten := write_cases (r := r) (leadsInto_of_find (by rw [hpath]; exact hk)) (hlink k hk)
    exact .inr ⟨r, questions, k, _, rfl, hpath, hk, hwritten, by rw [analyze, hrecord]⟩

/-- Where nothing is in the way of the document of a directory, its analysis goes well. -/
lemma exists_result_of_free {a : Analyzer} {d : Path} {k : Location}
    (hd : t.find d = .ok (k, .directory)) (hadmitted : (draftIn d).IsAdmitted)
    (hdraft : t.entryAt? (k ++ [draftName]) = none)
    (hplace : t.entryAt? (k ++ [fileName]) ≠ some .directory) :
    ∃ r, (a.analyze t d).result = .ok r := by
  have hlink : ∀ m, t.find d = .ok (m, .directory) →
      ∀ target, t.entryAt? (m ++ [draftName]) ≠ some (.link target) := by
    intro m hm target
    obtain ⟨rfl, -⟩ := Prod.mk.inj (Except.ok.inj (hm.symm.trans hd))
    simp [hdraft]
  rcases analyze_cases (a := a) hlink with
    ⟨f, hrecord, -⟩ | ⟨r, questions, m, written, -, rfl, hm, hwritten, heq⟩
  · obtain ⟨found, hfound⟩ := exists_record_iff.mpr ⟨k, hd⟩
    cases hfound.symm.trans hrecord
  · obtain ⟨rfl, -⟩ := Prod.mk.inj (Except.ok.inj (hm.symm.trans hd))
    rw [heq]
    cases hwritten with
    | refused f hrefused =>
      rcases hrefused with hnot | hdirectory
      · exact absurd hadmitted hnot
      · rw [hdraft] at hdirectory
        cases hdirectory
    | obstructed f _ _ hdirectory => exact absurd hdirectory hplace
    | placed _ _ _ => exact ⟨r, rfl⟩

lemma Yields.unique {a : Analyzer} {r' : DirectoryRecord} (h : a.Yields t root l names r)
    (h' : a.Yields t root l names r') : r = r' := by
  have heq := h.record.symm.trans h'.record
  injection heq with heq
  injection heq

/-- Where the document of a directory can be written, there is a record for it. -/
lemma exists_yields (hd : t.find (root.follow names) = .ok (l ++ names, .directory))
    (hadmitted : (draftIn (root.follow names)).IsAdmitted)
    (hdraft : t.entryAt? (l ++ names ++ [draftName]) ≠ some .directory)
    (hplace : t.entryAt? (l ++ names ++ [fileName]) ≠ some .directory) :
    ∃ r, (offline c filter).Yields t root l names r := by
  obtain ⟨⟨r, questions⟩, hrecord⟩ := exists_record_iff.mpr ⟨_, hd⟩
  obtain ⟨-, rfl⟩ := record_path hrecord
  exact ⟨r, hrecord, hadmitted, hdraft, hplace⟩

/-- What comes of an analysis: a record with its document, or a failure after which at most a draft
is gone. -/
structure Analyzed (a : Analyzer) (t : FileTree) (root : Path) (l names : Location)
    (o : Outcome) : Prop where
  project : o.tree.IsProject root l
  same : SameButDocuments t o.tree
  result : ∀ r, o.result = .ok r ↔ a.Yields t root l names r
  document : ∀ r, a.Yields t root l names r →
    o.tree.entryAt? (l ++ names ++ [fileName]) = some (.file (Document.bytes r) t.clock)
  draft : ∀ m, t.entryAt? (m ++ [draftName]) = none → o.tree.entryAt? (m ++ [draftName]) = none
  elsewhere : ∀ m, m ≠ l ++ names ++ [draftName] →
    (∀ r, a.Yields t root l names r → m ≠ l ++ names ++ [fileName]) →
    o.tree.entryAt? m = t.entryAt? m

lemma Analyzed.of_none {a : Analyzer} {o : Outcome} {f : Failure} (hproject : o.tree.IsProject root l)
    (hsame : SameButDocuments t o.tree) (hresult : o.result = .error f)
    (hnone : ∀ r, ¬a.Yields t root l names r)
    (htree : o.tree = t ∨ ∃ r, o.tree = withoutDraft t (l ++ names) r) :
    a.Analyzed t root l names o := by
  constructor
  case project => exact hproject
  case same => exact hsame
  case result =>
    intro r
    simp [hresult, hnone r]
  case document =>
    intro r hr
    exact absurd hr (hnone r)
  case draft =>
    intro m hm
    rcases htree with heq | ⟨r, heq⟩
    · rw [heq, hm]
    · rw [heq, entryAt?_withoutDraft, hm, ite_self]
  case elsewhere =>
    intro m hdraft _
    rcases htree with heq | ⟨r, heq⟩
    · rw [heq]
    · rw [heq, entryAt?_withoutDraft, if_neg hdraft]

lemma Analyzed.of_yields {a : Analyzer} {o : Outcome} (hproject : o.tree.IsProject root l)
    (hsame : SameButDocuments t o.tree) (hresult : o.result = .ok r)
    (hr : a.Yields t root l names r) (htree : o.tree = documented t l names r) :
    a.Analyzed t root l names o := by
  constructor
  case project => exact hproject
  case same => exact hsame
  case result =>
    intro r'
    rw [hresult]
    constructor
    · intro heq
      obtain rfl := Except.ok.inj heq
      exact hr
    · intro hr'
      rw [hr.unique hr']
  case document =>
    intro r' hr'
    rw [htree, entryAt?_documented, if_pos rfl, hr.unique hr']
  case draft =>
    intro m hm
    rw [htree, entryAt?_documented, if_neg (document_ne_draft _ m).symm, hm, ite_self]
  case elsewhere =>
    intro m hdraft hplace
    rw [htree, entryAt?_documented, if_neg (hplace r hr), if_neg hdraft]

/-- What comes of an analysis of a directory of the project, if no assistant is asked. -/
theorem analyzed_of_nobody {a : Analyzer} (hnobody : a.assistant? = none) (ht : t.IsProject root l)
    (hn : ∀ n ∈ names, IsPlainName n) :
    a.Analyzed t root l names (a.analyze t (root.follow names)) := by
  have hlink : ∀ k, t.find (root.follow names) = .ok (k, .directory) →
      ∀ target, t.entryAt? (k ++ [draftName]) ≠ some (.link target) := by
    intro k hk
    obtain rfl := ht.location hn hk
    exact ht.linkFree_names names [draftName]
  rcases analyze_cases hlink with
    ⟨f, hrecord, heq⟩ | ⟨r, questions, k, written, hrecord, hpath, hk, hwritten, heq⟩
  · rw [heq]
    refine .of_none ht (.refl t) rfl (fun r hr => ?_) (.inl rfl)
    cases hrecord.symm.trans hr.record
  · obtain rfl : questions = [] := questions_of_record hnobody hrecord
    obtain rfl := ht.location hn hk
    have hdirectory := (find_eq_ok_iff.mp hk).2
    have hsame := hwritten.sameButDocuments (ht.linkFree_names names)
    have hproject := ht.sameButDocuments hsame (hwritten.wellFormed ht.wellFormed hdirectory)
    rw [heq]
    cases hwritten with
    | refused f hrefused =>
      refine .of_none hproject hsame rfl (fun r' hr' => ?_) (.inl rfl)
      rcases hrefused with hnot | hdraft
      · exact hnot (hpath ▸ hr'.admitted)
      · exact hr'.draft hdraft
    | obstructed f hadmitted hfree hplace =>
      exact .of_none hproject hsame rfl (fun r' hr' => hr'.place hplace) (.inr ⟨r, rfl⟩)
    | placed hadmitted hfree hplace =>
      exact .of_yields hproject hsame rfl ⟨hrecord, hpath ▸ hadmitted, hfree, hplace⟩ rfl

lemma analyzed (ht : t.IsProject root l) (hn : ∀ n ∈ names, IsPlainName n) :
    (offline c filter).Analyzed t root l names
      ((offline c filter).analyze t (root.follow names)) :=
  analyzed_of_nobody rfl ht hn

/-- An analysis that asks no assistant, and that hears the same from version control whatever
documents stand in the tree. -/
structure Steady (a : Analyzer) (t : FileTree) : Prop where
  nobody : a.assistant? = none
  changes : ∀ t₁ d, SameButDocuments t t₁ → a.recentChanges t₁ d = a.recentChanges t d

lemma steady_offline (t : FileTree) : (offline c filter).Steady t :=
  ⟨rfl, fun _ _ _ => by rw [recentChanges_offline, recentChanges_offline]⟩

lemma Steady.sameButDocuments {a : Analyzer} (h : a.Steady t) (hsame : SameButDocuments t t₁) :
    a.Steady t₁ :=
  ⟨h.nobody, fun t₂ d hsame₂ =>
    (h.changes t₂ d (hsame.trans hsame₂)).trans (h.changes t₁ d hsame).symm⟩

/-- The record and the document of a directory do not hang on the documents that stand already. -/
lemma Yields.of_sameButDocuments {a : Analyzer} (h : a.Yields t root l names r) (hsteady : a.Steady t)
    (ht : t.IsProject root l) (hsame : SameButDocuments t t₁) (ht₁ : t₁.IsProject root l)
    (hn : ∀ n ∈ names, IsPlainName n) : a.Yields t₁ root l names r := by
  obtain ⟨k, hk⟩ := exists_record_iff.mp ⟨_, h.record⟩
  obtain rfl := ht.location hn hk
  constructor
  case record =>
    rw [← h.record]
    refine record_of_sameFiles hk (hsame.keepsWays.find_directory hk) ht.wellFormed ht₁.wellFormed
      (ht.linkFree_names names) (ht₁.linkFree_names names) ?_ (hsteady.changes t₁ _ hsame)
    -- what is visible is not hidden, and documents and drafts are
    intro name bytes seconds hshows
    have hvisible : FileName.isHidden name = false := by
      simp only [shows, Bool.and_eq_true, Bool.not_eq_true'] at hshows
      exact hshows.1
    have hplace : ¬IsPlace (l ++ names ++ [name]) := by
      rintro (hname | hname)
      all_goals
        rw [List.getLast?_concat] at hname
        obtain rfl := Option.some.inj hname
        revert hvisible
        decide +kernel
    rw [hsame.elsewhere _ hplace]
  case admitted => exact h.admitted
  case draft => exact fun hd => h.draft (hsame.symm.keepsWays.directory _ hd)
  case place => exact fun hd => h.place (hsame.symm.keepsWays.directory _ hd)

lemma Steady.yields_iff {a : Analyzer} (hsteady : a.Steady t) (ht : t.IsProject root l)
    (hsame : SameButDocuments t t₁) (ht₁ : t₁.IsProject root l) (hn : ∀ n ∈ names, IsPlainName n) :
    a.Yields t₁ root l names r ↔ a.Yields t root l names r :=
  ⟨fun h => h.of_sameButDocuments (hsteady.sameButDocuments hsame) ht₁ hsame.symm ht hn,
    fun h => h.of_sameButDocuments hsteady ht hsame ht₁ hn⟩

lemma yields_iff (ht : t.IsProject root l) (hsame : SameButDocuments t t₁)
    (ht₁ : t₁.IsProject root l) (hn : ∀ n ∈ names, IsPlainName n) :
    (offline c filter).Yields t₁ root l names r ↔ (offline c filter).Yields t root l names r :=
  (steady_offline t).yields_iff ht hsame ht₁ hn

/-! ## Many analyses -/

/-- What is true of a tree to which analyses of directories have led. -/
structure Reached (a : Analyzer) (t₀ : FileTree) (root : Path) (l : Location)
    (done : List Location) (t : FileTree) : Prop where
  project : t.IsProject root l
  same : SameButDocuments t₀ t
  /-- Every directory that could get its document has it. -/
  documents : ∀ names ∈ done, ∀ r, a.Yields t₀ root l names r →
    t.entryAt? (l ++ names ++ [fileName]) = some (.file (Document.bytes r) t₀.clock)
  /-- No draft has come about. -/
  drafts : ∀ m, t₀.entryAt? (m ++ [draftName]) = none → t.entryAt? (m ++ [draftName]) = none
  /-- Everything else stands where it stood. -/
  elsewhere : ∀ m, (∀ names ∈ done, m ≠ l ++ names ++ [draftName]) →
    (∀ names ∈ done, ∀ r, a.Yields t₀ root l names r → m ≠ l ++ names ++ [fileName]) →
    t.entryAt? m = t₀.entryAt? m

lemma Reached.start {a : Analyzer} (ht : t₀.IsProject root l) : a.Reached t₀ root l [] t₀ :=
  ⟨ht, .refl t₀, by simp, fun _ h => h, fun _ _ _ => rfl⟩

/-- One more analysis: its result is the one that the first tree would have given. -/
theorem Steady.step {a : Analyzer} {done : List Location} (hsteady : a.Steady t₀)
    (ht : t₀.IsProject root l) (h : a.Reached t₀ root l done t) (hn : ∀ n ∈ names, IsPlainName n) :
    (∀ r, (a.analyze t (root.follow names)).result = .ok r ↔ a.Yields t₀ root l names r) ∧
    a.Reached t₀ root l (done ++ [names]) (a.analyze t (root.follow names)).tree := by
  have hyields : ∀ r, a.Yields t root l names r ↔ a.Yields t₀ root l names r :=
    fun r => hsteady.yields_iff ht h.same h.project hn
  have hanalyzed : a.Analyzed t root l names (a.analyze t (root.follow names)) :=
    analyzed_of_nobody hsteady.nobody h.project hn
  refine ⟨fun r => (hanalyzed.result r).trans (hyields r), ?_⟩
  constructor
  case project => exact hanalyzed.project
  case same => exact h.same.trans hanalyzed.same
  case documents =>
    intro other hother r hr
    by_cases heq : other = names
    · -- written just now, at the time of the first tree, for writing takes no time
      subst heq
      rw [hanalyzed.document r ((hyields r).mpr hr), h.same.clock]
    · have hmem : other ∈ done := by simpa [heq] using hother
      rw [hanalyzed.elsewhere, h.documents other hmem r hr]
      · exact document_ne_draft _ _
      · intro r' _
        simpa using heq
  case drafts =>
    intro m hm
    exact hanalyzed.draft m (h.drafts m hm)
  case elsewhere =>
    intro m hdraft hdocument
    rw [hanalyzed.elsewhere m (hdraft names (by simp))
      fun r hr => hdocument names (by simp) r ((hyields r).mp hr)]
    exact h.elsewhere m (fun other hmem => hdraft other (List.mem_append_left _ hmem))
      fun other hmem => hdocument other (List.mem_append_left _ hmem)

/-- Analyses of directories, one after the other: every result is the one that the first tree would
have given. -/
theorem Steady.run {a : Analyzer} {done rest : List Location} (hsteady : a.Steady t₀)
    (ht : t₀.IsProject root l) (h : a.Reached t₀ root l done t)
    (hn : ∀ names ∈ rest, ∀ n ∈ names, IsPlainName n) :
    List.Forall₂ (fun names o => ∀ r, o.result = .ok r ↔ a.Yields t₀ root l names r)
      rest (a.analyzeEach t (rest.map root.follow)).2 ∧
    a.Reached t₀ root l (done ++ rest) (a.analyzeEach t (rest.map root.follow)).1 := by
  induction rest generalizing t done with
  | nil => exact ⟨.nil, by simpa [analyzeEach] using h⟩
  | cons names rest ih =>
    obtain ⟨hresult, hstep⟩ := hsteady.step ht h (hn names (by simp))
    obtain ⟨hresults, hreached⟩ := ih hstep fun other hmem => hn other (List.mem_cons_of_mem _ hmem)
    rw [List.append_assoc] at hreached
    exact ⟨.cons hresult hresults, hreached⟩

lemma Reached.step {done : List Location} (ht : t₀.IsProject root l)
    (h : (offline c filter).Reached t₀ root l done t) (hn : ∀ n ∈ names, IsPlainName n) :
    (∀ r, ((offline c filter).analyze t (root.follow names)).result = .ok r ↔
      (offline c filter).Yields t₀ root l names r) ∧
    (offline c filter).Reached t₀ root l (done ++ [names])
      ((offline c filter).analyze t (root.follow names)).tree :=
  (steady_offline t₀).step ht h hn

lemma Reached.run {done rest : List Location} (ht : t₀.IsProject root l)
    (h : (offline c filter).Reached t₀ root l done t)
    (hn : ∀ names ∈ rest, ∀ n ∈ names, IsPlainName n) :
    List.Forall₂ (fun names o => ∀ r, o.result = .ok r ↔
        (offline c filter).Yields t₀ root l names r)
      rest ((offline c filter).analyzeEach t (rest.map root.follow)).2 ∧
    (offline c filter).Reached t₀ root l (done ++ rest)
      ((offline c filter).analyzeEach t (rest.map root.follow)).1 :=
  (steady_offline t₀).run ht h hn

/-- Trees reached on two ways are the same when the same directories got their documents. -/
lemma Reached.entryAt?_eq {a : Analyzer} {first second : List Location}
    (h₁ : a.Reached t₀ root l first t₁) (h₂ : a.Reached t₀ root l second t₂)
    (hdrafts : ∀ names, t₀.entryAt? (l ++ names ++ [draftName]) = none)
    (hsame : ∀ names r, a.Yields t₀ root l names r → (names ∈ first ↔ names ∈ second))
    (m : Location) : t₂.entryAt? m = t₁.entryAt? m := by
  -- what stands at a location is a document that was written, perhaps a draft, or as it was
  by_cases hdocument : ∃ names r, m = l ++ names ++ [fileName] ∧ names ∈ first ∧
      a.Yields t₀ root l names r
  · obtain ⟨names, r, rfl, hmem, hr⟩ := hdocument
    rw [h₁.documents names hmem r hr, h₂.documents names ((hsame names r hr).mp hmem) r hr]
  · by_cases hdraft : ∃ names, m = l ++ names ++ [draftName]
    · obtain ⟨names, rfl⟩ := hdraft
      rw [h₁.drafts _ (hdrafts names), h₂.drafts _ (hdrafts names)]
    · rw [h₁.elsewhere m, h₂.elsewhere m]
      · exact fun names _ heq => hdraft ⟨names, heq⟩
      · exact fun names hmem r hr heq =>
          hdocument ⟨names, r, heq, (hsame names r hr).mpr hmem, hr⟩
      · exact fun names _ heq => hdraft ⟨names, heq⟩
      · exact fun names hmem r hr heq => hdocument ⟨names, r, heq, hmem, hr⟩

lemma toOption_eq_of_ok_iff {α ε : Type} {x y : Except ε α}
    (h : ∀ r, x = .ok r ↔ y = .ok r) : x.toOption = y.toOption := by
  cases x with
  | error e =>
    cases y with
    | error e' => rfl
    | ok r => exact absurd ((h r).mpr rfl) (by simp)
  | ok r => rw [(h r).mp rfl]

/-- The results do not hang on what was analysed before: they are those of the first tree. -/
lemma results_analyzeEach {directories : List Location} (ht : t.IsProject root l)
    (hn : ∀ names ∈ directories, ∀ n ∈ names, IsPlainName n) :
    ((offline c filter).analyzeEach t (directories.map root.follow)).2.map (·.result.toOption) =
      directories.map fun names =>
        ((offline c filter).analyze t (root.follow names)).result.toOption := by
  obtain ⟨hresults, -⟩ := (Reached.start (a := offline c filter) ht).run ht hn
  generalize ((offline c filter).analyzeEach t (directories.map root.follow)).2 = outcomes at hresults
  induction hresults with
  | nil => rfl
  | @cons names o rest outcomes hresult _ ih =>
    have halone : (offline c filter).Analyzed t root l names
        ((offline c filter).analyze t (root.follow names)) := analyzed ht (hn names (by simp))
    rw [List.map_cons, List.map_cons, ih fun other hmem => hn other (List.mem_cons_of_mem _ hmem),
      toOption_eq_of_ok_iff fun r => (hresult r).trans (halone.result r).symm]

/-- What a run over directories leaves is decided by their set: neither their order nor repetitions
show. A result is the record of the first tree, and a directory without one changes nothing for the
others. -/
theorem analyzeEach_order_irrelevant {first second : List Location} (ht : t.IsProject root l)
    (hdrafts : ∀ names, t.entryAt? (l ++ names ++ [draftName]) = none)
    (hn : ∀ names ∈ first, ∀ n ∈ names, IsPlainName n)
    (hsame : ∀ names, names ∈ first ↔ names ∈ second) :
    let run := fun directories : List Location =>
      (offline c filter).analyzeEach t (directories.map root.follow)
    (∀ m, (run second).1.entryAt? m = (run first).1.entryAt? m) ∧
    List.Forall₂ (fun names o => ∀ r, o.result = .ok r ↔
        (offline c filter).record t (root.follow names) = .ok (r, []) ∧
          (draftIn (root.follow names)).IsAdmitted ∧
          t.entryAt? (l ++ names ++ [fileName]) ≠ some .directory)
      first (run first).2 ∧
    ∀ before names after, first = before ++ names :: after →
      (∀ o ∈ (run first).2[before.length]?, ∀ r, o.result ≠ .ok r) →
      (∀ m, (run (before ++ after)).1.entryAt? m = (run first).1.entryAt? m) ∧
      (run (before ++ after)).2.map (·.result.toOption) =
        ((run first).2.map (·.result.toOption)).eraseIdx before.length := by
  intro run
  have hstart := Reached.start (a := offline c filter) ht
  obtain ⟨hresults, hfirst⟩ := hstart.run ht hn
  refine ⟨?_, ?_, ?_⟩
  · obtain ⟨-, hsecond⟩ := hstart.run ht fun names hmem => hn names ((hsame names).mpr hmem)
    exact hfirst.entryAt?_eq hsecond hdrafts fun names r _ => by simpa using hsame names
  · refine hresults.imp fun names o hresult r => (hresult r).trans ?_
    constructor
    · exact fun h => ⟨h.record, h.admitted, h.place⟩
    · exact fun ⟨hrecord, hadmitted, hplace⟩ =>
        ⟨hrecord, hadmitted, by rw [hdrafts names]; simp, hplace⟩
  · rintro before names after rfl hfailure
    have hn' : ∀ other ∈ before ++ after, ∀ n ∈ other, IsPlainName n :=
      fun other hmem => hn other (by simp at hmem ⊢; tauto)
    constructor
    · obtain ⟨-, hwithout⟩ := hstart.run ht hn'
      refine hfirst.entryAt?_eq hwithout hdrafts fun other r hr => ?_
      -- with a record, the directory that is left out would not have failed
      have hne : other ≠ names := by
        rintro rfl
        have hlt : before.length < (run (before ++ other :: after)).2.length := by
          rw [← hresults.length_eq]
          simp
        have hat := hresults.get (by simp) hlt r
        exact hfailure _ (List.getElem?_eq_getElem hlt) r (hat.mpr (by simpa using hr))
      simp [hne]
    · rw [results_analyzeEach ht hn, results_analyzeEach ht hn', List.map_append, List.map_append,
        List.map_cons, List.eraseIdx_append_of_length_le (by simp)]
      simp

/-- A project with a file at its root and one in a directory below. -/
def smallProject : FileTree where
  entries := [(["p"], .directory), (["p", "readme.md"], .file "Hello".toUTF8 3),
    (["p", "src"], .directory), (["p", "src", "main.ts"], .file "export const x = 1".toUTF8 4)]
  clock := 5

lemma isProject_smallProject : smallProject.IsProject ⟨"/p"⟩ ["p"] := by
  have hname : IsEntryName "p" := by decide +kernel
  have hlinks : ∀ l, smallProject.LinkFreeBelow l := linkFreeBelow_of_entries (by decide +kernel)
  have hjoin := find_join_iff (t := smallProject) (k := ["p"]) (e := .directory) (find_slash _)
    hname.toIsPlainName (hlinks [] ["p"])
  exact ⟨by decide +kernel, hjoin.mpr ⟨by decide +kernel, hname.size_le, rfl, rfl⟩, hlinks _⟩

lemma exists_yields_smallProject :
    ∃ r, (offline {} ⟨⟨"/p"⟩, []⟩).Yields smallProject ⟨"/p"⟩ ["p"] ["src"] r := by
  have hnone : ∀ name, (∀ x ∈ smallProject.entries, x.1.getLast? ≠ some name) →
      smallProject.entryAt? (["p"] ++ ["src"] ++ [name]) ≠ some .directory := by
    intro name hname
    rw [entryAt?_concat_eq_none hname]
    simp
  refine exists_yields ?_ (by decide +kernel) (hnone _ (by decide +kernel))
    (hnone _ (by decide +kernel))
  exact find_follow_of_entry isProject_smallProject.wellFormed isProject_smallProject.root rfl
    (by simp) (by decide +kernel)

/-- Twice the directory below and the root last, or each of them once: the same is left, and the
directory below has its document. -/
theorem smallProject_order_irrelevant :
    smallProject.IsProject ⟨"/p"⟩ ["p"] ∧
      (∀ m, ((offline {} ⟨⟨"/p"⟩, []⟩).analyzeEach smallProject
          ([["src"], ["src"], []].map (Path.follow ⟨"/p"⟩))).1.entryAt? m =
        ((offline {} ⟨⟨"/p"⟩, []⟩).analyzeEach smallProject
          ([[], ["src"]].map (Path.follow ⟨"/p"⟩))).1.entryAt? m) ∧
      ∃ r, r.path = ⟨"/p/src"⟩ ∧ ((offline {} ⟨⟨"/p"⟩, []⟩).analyzeEach smallProject
          ([[], ["src"]].map (Path.follow ⟨"/p"⟩))).1.entryAt? ["p", "src", fileName] =
        some (.file (Document.bytes r) 5) := by
  have hplain : ∀ names ∈ [[], ["src"]], ∀ n ∈ names, IsPlainName n := by decide +kernel
  have hsets : ∀ names, names ∈ [[], ["src"]] ↔ names ∈ [["src"], ["src"], []] := by
    simp [or_comm]
  obtain ⟨hsame, -⟩ := @analyzeEach_order_irrelevant smallProject ⟨"/p"⟩ ["p"] {} ⟨⟨"/p"⟩, []⟩ _ _
    isProject_smallProject (fun names => entryAt?_concat_eq_none (by decide +kernel) (["p"] ++ names))
    hplain hsets
  obtain ⟨r, hr⟩ := exists_yields_smallProject
  obtain ⟨-, hreached⟩ :=
    (Reached.start (a := offline {} ⟨⟨"/p"⟩, []⟩) isProject_smallProject).run isProject_smallProject
      hplain
  refine ⟨isProject_smallProject, hsame, r, (record_path hr.record).1.trans (by decide), ?_⟩
  exact hreached.documents ["src"] (by simp) r hr

end Analyzer

end DirectoryNotes
