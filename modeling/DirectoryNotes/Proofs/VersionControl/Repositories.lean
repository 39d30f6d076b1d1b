import DirectoryNotes.Command.Run
import DirectoryNotes.Proofs.Directory.Reanalysis

/-!
# Documents and repositories

The repository that a directory belongs to is found by the entry `.git`. A document has another name,
so it makes no repository and takes none away, unless an entry `.git` is a link to its place:

* `KeepsRepositories`: no path to an entry `.git` leads to a place of documents;
  `keepsRepositories_of_noLink` says that this is so where none of them is a link;
* `repositoryRoot?_eq`: documents then make no difference to where a repository is found;
* `steady_analyzer`: so the analyses of a project that asks no assistant are steady.
-/

namespace DirectoryNotes

open FileTree Document

variable {t t' : FileTree} {p d : Path}

/-- The name of the entry that makes a directory a repository. -/
def repositoryName : String := ".git"

/-- No path to an entry that makes a repository leads to a place of documents. -/
def KeepsRepositories (t : FileTree) : Prop :=
  ∀ (above : Path) k, t.locate (above.join ⟨repositoryName⟩) = .ok k → ¬IsPlace k

/-- Entries that are no links stand where their paths say. -/
lemma keepsRepositories_of_noLink
    (hlink : ∀ m target, t.entryAt? (m ++ [repositoryName]) ≠ some (.link target)) :
    KeepsRepositories t := by
  intro above k hlocate
  have hname : IsPlainName repositoryName := by decide
  obtain ⟨m, left, hm, hwalk⟩ := exists_leadsInto_of_join hname (walk_of_locate hlocate)
  rw [walk_name hm.directory hname (hlink m), if_pos (by decide)] at hwalk
  rw [← Except.ok.inj hwalk, IsPlace, List.getLast?_concat]
  decide

/-- A file that is put where none was a directory or a link leads no path elsewhere. -/
lemma KeepsRepositories.put (h : KeepsRepositories t) {m : Location} (hvacant : t.Vacant m)
    (hm : m ≠ []) (bytes : ByteArray) (seconds : Int64) :
    KeepsRepositories (t.put m (.file bytes seconds)) :=
  fun above k hlocate => h above k ((hvacant.keepsWays_of_put hm bytes seconds).locate hlocate)

lemma FileTree.reaches_iff :
    t.reaches p = true ↔ ∃ k, t.locate p = .ok k ∧ (t.entryAt? k).isSome := by
  unfold reaches find
  cases hp : t.locate p with
  | error e => simp [bind, Except.bind, Except.toBool]
  | ok k => cases hk : t.entryAt? k <;> simp [bind, Except.bind, Except.toBool, hk]

lemma KeepsRepositories.sameButDocuments (h : KeepsRepositories t) (hsame : SameButDocuments t t') :
    KeepsRepositories t' :=
  fun above k hlocate => h above k (hsame.symm.keepsWays.locate hlocate)

lemma KeepsRepositories.reaches_of (h : KeepsRepositories t) (hsame : SameButDocuments t t')
    (hp : t.reaches (p.join ⟨repositoryName⟩) = true) :
    t'.reaches (p.join ⟨repositoryName⟩) = true := by
  obtain ⟨k, hlocate, hentry⟩ := reaches_iff.mp hp
  exact reaches_iff.mpr ⟨k, hsame.keepsWays.locate hlocate, by
    rwa [hsame.elsewhere k (h p k hlocate)]⟩

/-- Documents make no difference to where a repository is found. -/
theorem KeepsRepositories.repositoryRoot?_eq (h : KeepsRepositories t)
    (hsame : SameButDocuments t t') (d : Path) : repositoryRoot? t' d = repositoryRoot? t d := by
  have hreaches : (fun above : Path => t'.reaches (above.join ⟨repositoryName⟩)) =
      fun above => t.reaches (above.join ⟨repositoryName⟩) := by
    funext above
    exact Bool.eq_iff_iff.mpr ⟨(h.sameButDocuments hsame).reaches_of hsame.symm, h.reaches_of hsame⟩
  exact congrArg d.ancestors.find? hreaches

/-- What a project that asks no assistant analyses by hears the same whatever documents there are. -/
theorem steady_analyzer {s : Session} {c : Configuration} {filter : IgnoreFilter}
    (hnobody : c.integrations.assistant = false)
    (hgit : c.integrations.git = true → KeepsRepositories t) : (s.analyzer c filter).Steady t := by
  constructor
  case nobody => simp [Session.analyzer, hnobody]
  case changes =>
    intro t₁ d hsame
    cases h : c.integrations.git with
    | false =>
      have habsent : (s.analyzer c filter).versionControl = .absent := by simp [Session.analyzer, h]
      rw [Analyzer.recentChanges_absent habsent, Analyzer.recentChanges_absent habsent]
    | true =>
      -- the program is asked in the same repository, and what it prints hangs on nothing else
      unfold Analyzer.recentChanges
      rw [(hgit h).repositoryRoot?_eq hsame]

end DirectoryNotes
