import DirectoryNotes.Proofs.Directory.Reanalysis
import DirectoryNotes.Proofs.Directory.Summary

/-!
# Analysing once more

Directories that were analysed are analysed again at another time, and nothing comes of it:

* `FileTree.atTime`: a tree at another time. `Yields.atTime` and `Steady.atTime` say that an analysis
  gives the same there;
* `Entry.undated`: an entry without the second at which it was written;
* `Steady.again`: apart from these seconds everything stays as it is.
-/

namespace DirectoryNotes

open FileTree Document

/-! ## Another time -/

/-- The tree at another time. -/
def FileTree.atTime (t : FileTree) (clock : Int64) : FileTree := { t with clock := clock }

/-- An entry without the second at which it was written. -/
def Entry.undated : Entry → Entry
  | .file bytes _ => .file bytes 0
  | e => e

namespace Analyzer

variable {t : FileTree} {root : Path} {l names : Location} {a : Analyzer} {r : DirectoryRecord}

lemma sameEntries_atTime (t : FileTree) (clock : Int64) : SameEntries t (t.atTime clock) :=
  ⟨rfl, fun _ => rfl⟩

lemma isProject_atTime (ht : t.IsProject root l) (clock : Int64) :
    (t.atTime clock).IsProject root l :=
  (sameEntries_atTime t clock).isProject ht
    ⟨ht.wellFormed.nodup, ht.wellFormed.names, ht.wellFormed.parents⟩

/-- An analysis gives the same at every time. -/
lemma Yields.atTime (h : a.Yields t root l names r) (ht : t.IsProject root l) (clock : Int64)
    (hn : ∀ n ∈ names, IsPlainName n) : a.Yields (t.atTime clock) root l names r := by
  have hsame := sameEntries_atTime t clock
  have ht' := isProject_atTime ht clock
  obtain ⟨k, hk⟩ := exists_record_iff.mp ⟨_, h.record⟩
  obtain rfl := ht.location hn hk
  constructor
  case record =>
    rw [← h.record]
    exact record_of_sameFiles hk ((hsame.find_eq _).trans hk) ht.wellFormed ht'.wellFormed
      (ht.linkFree_names names) (ht'.linkFree_names names) (fun _ _ _ _ => Iff.rfl)
      (recentChanges_sameEntries hsame)
  case admitted => exact h.admitted
  case draft => exact h.draft
  case place => exact h.place

lemma yields_atTime_iff (ht : t.IsProject root l) (clock : Int64)
    (hn : ∀ n ∈ names, IsPlainName n) :
    a.Yields (t.atTime clock) root l names r ↔ a.Yields t root l names r :=
  ⟨fun h => h.atTime (isProject_atTime ht clock) t.clock hn, fun h => h.atTime ht clock hn⟩

/-- An analysis to which documents make no difference is so at every time. -/
lemma Steady.atTime (h : a.Steady t) (clock : Int64) : a.Steady (t.atTime clock) where
  nobody := h.nobody
  changes t₁ d hsame := by
    -- a tree that differs in documents at this time does so at the other time as well
    have hback : SameButDocuments t (t₁.atTime t.clock) :=
      ⟨hsame.workingDirectory, rfl, hsame.elsewhere, fun m => (hsame.places m).imp id
        fun ⟨hm, hm'⟩ => ⟨⟨hm.no_directory, hm.no_link⟩, ⟨hm'.no_directory, hm'.no_link⟩⟩⟩
    calc a.recentChanges t₁ d
        = a.recentChanges (t₁.atTime t.clock) d :=
          (recentChanges_sameEntries (sameEntries_atTime t₁ t.clock)).symm
      _ = a.recentChanges t d := h.changes _ d hback
      _ = a.recentChanges (t.atTime clock) d :=
          (recentChanges_sameEntries (sameEntries_atTime t clock)).symm

/-! ## Once more -/

/-- Directories that were analysed are analysed again, at whatever time: every entry stays, and every
file has the bytes that it had. -/
theorem Steady.again {below : List Location} (hsteady : a.Steady t) (ht : t.IsProject root l)
    (hdrafts : ∀ names, t.entryAt? (l ++ names ++ [draftName]) = none)
    (hn : ∀ names ∈ below, ∀ n ∈ names, IsPlainName n) (clock : Int64) (m : Location) :
    let first := (a.analyzeEach t (below.map root.follow)).1
    let second := (a.analyzeEach (first.atTime clock) (below.map root.follow)).1
    (second.entryAt? m).map Entry.undated = (first.entryAt? m).map Entry.undated := by
  intro first second
  have hfirst : a.Reached t root l below first := (hsteady.run ht (.start ht) hn).2
  have hproject := isProject_atTime hfirst.project clock
  have hsecond : a.Reached (first.atTime clock) root l below second :=
    (((hsteady.sameButDocuments hfirst.same).atTime clock).run hproject (.start hproject) hn).2
  have hyields : ∀ names ∈ below, ∀ r,
      a.Yields (first.atTime clock) root l names r ↔ a.Yields t root l names r :=
    fun names hmem r => (yields_atTime_iff hfirst.project clock (hn names hmem)).trans
      (hsteady.yields_iff ht hfirst.same hfirst.project (hn names hmem))
  -- what stands at a location is a document that was written twice, no draft, or as it was
  by_cases hdocument : ∃ names ∈ below, ∃ r, a.Yields t root l names r ∧
      m = l ++ names ++ [fileName]
  · obtain ⟨names, hmem, r, hr, rfl⟩ := hdocument
    rw [hsecond.documents names hmem r ((hyields names hmem r).mpr hr),
      hfirst.documents names hmem r hr]
    rfl
  · by_cases hdraft : ∃ names ∈ below, m = l ++ names ++ [draftName]
    · obtain ⟨names, -, rfl⟩ := hdraft
      have hnone := hfirst.drafts _ (hdrafts names)
      rw [hsecond.drafts _ hnone, hnone]
    · have hkept := hsecond.elsewhere m (fun names hmem heq => hdraft ⟨names, hmem, heq⟩)
        fun names hmem r hr heq =>
          hdocument ⟨names, hmem, r, (hyields names hmem r).mp hr, heq⟩
      exact congrArg (Option.map Entry.undated) hkept

end Analyzer

end DirectoryNotes
