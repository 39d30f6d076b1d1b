import DirectoryNotes.Proofs.Configuration
import DirectoryNotes.Proofs.Directory.VisibleFiles
import DirectoryNotes.Proofs.Document.Links
import DirectoryNotes.Proofs.Plan.Target
import DirectoryNotes.Proofs.Record.Codec

/-!
# What a refresh of one directory puts out

In a project that asks for JSON the record of the directory is put out twice, printed as JSON and
written as a document:

* `run_refresh_path`: all that comes of the command, if the analysis of the directory goes well;
* `refresh_outputs_agree`: both outputs are made of the record that the analysis made.
-/

namespace DirectoryNotes

open FileTree FileError Document Analyzer

variable {s : Session} {t : FileTree} {top root p d : Path} {c : Configuration} {a : Analyzer}
  {r : DirectoryRecord}

/-! ## The command -/

/-- All that comes of a refresh of one directory in a project that asks for JSON, if the analysis of
the directory goes well: the record is printed, unless a name in the path of the directory is no
text. -/
lemma run_refresh_path (hroot : s.tree.realPath top = .ok root)
    (hload : Configuration.load s.tree root = .ok c) (hformat : c.outputFormat = .json)
    (hplan : s.plan root ⟨.path p, false, false⟩ = .ok (a, [d]))
    (hanalyzed : (a.analyze s.tree d).result = .ok r) :
    Invocation.run ⟨top, .refresh ⟨.path p, false, false⟩⟩ s =
      if s.tree.decodes d then
        ⟨(a.analyze s.tree d).tree, 0,
          "Refreshed 1 of 1 directories\n" ++ r.toJson.pretty ++ "\n", ""⟩
      else
        ⟨(a.analyze s.tree d).tree, 1, "Refreshed 1 of 1 directories\n",
          errorText CommandFailure.unprintable.message CommandFailure.unprintable.cause?⟩ := by
  obtain ⟨c', filter, hload', -, rfl, -⟩ := plan_eq_ok_iff.mp hplan
  obtain rfl := Except.ok.inj (hload.symm.trans hload')
  cases hdecodes : s.tree.decodes d with
  | false =>
    obtain ⟨-, -, -, hwrite⟩ := exists_write_of_analyze hanalyzed
    have hrun := (Unprinted.intro ⟨.path p, false, false⟩ _ p d r _ rfl rfl hplan hformat hanalyzed
      hwrite hdecodes).run
    simp only [Invocation.run, hroot, hrun, Bool.false_eq_true, if_false]
    rfl
  | true =>
    have hcount : "Refreshed " ++ toString [r].length ++ " of 1 directories\n" =
        "Refreshed 1 of 1 directories\n" := by
      rw [List.length_singleton]
      decide
    have hrefresh : refreshProject s root ⟨.path p, false, false⟩ = _ := refreshProject_eq s root _
    rw [hplan] at hrefresh
    dsimp only at hrefresh
    rw [if_neg Bool.false_ne_true, refreshDirectories_path, recordOutput_path hformat hanalyzed,
      hdecodes, if_pos rfl, recordsOf_analyze hanalyzed, hcount] at hrefresh
    simp only [Invocation.run, hroot, Command.run, hrefresh, if_true, String.append_assoc]

/-- The two outputs of a refresh of one directory agree. Whatever directory the refresh plans for a path
and analyses, what it prints after its count is an object that stands for the record that the analysis
has made, every field of it, unless a name in the path of the directory is no text: then there is no
object for it, and the refresh fails after its count. Either way the document of the directory is this
record rendered, exactly if the draft was not a link that leads to the document or over it. -/
theorem refresh_outputs_agree (ht : s.tree.WellFormed) (hroot : s.tree.realPath top = .ok root)
    (hload : Configuration.load s.tree root = .ok c) (hformat : c.outputFormat = .json)
    (hplan : s.plan root ⟨.path p, false, false⟩ = .ok (a, [d]))
    (hanalyzed : (a.analyze s.tree d).result = .ok r) :
    ∃ questions tree, a.record s.tree d = .ok (r, questions) ∧
      (s.tree.decodes d = true → ∃ object,
        Invocation.run ⟨top, .refresh ⟨.path p, false, false⟩⟩ s =
          ⟨tree, 0, "Refreshed 1 of 1 directories\n" ++ object ++ "\n", ""⟩ ∧
        (Json.read? object).bind DirectoryRecord.ofJson? = some r) ∧
      (s.tree.decodes d = false →
        Invocation.run ⟨top, .refresh ⟨.path p, false, false⟩⟩ s =
          ⟨tree, 1, "Refreshed 1 of 1 directories\n",
            errorText CommandFailure.unprintable.message CommandFailure.unprintable.cause?⟩) ∧
      (tree.readText (pathIn d) = .ok (render r) ↔ DraftLeadsElsewhere s.tree d) := by
  obtain ⟨questions, hrecord, hpath, hwrite⟩ := exists_write_of_analyze hanalyzed
  obtain ⟨c', filter, -, -, -, hdirectories⟩ := plan_eq_ok_iff.mp hplan
  obtain ⟨target, htarget, heq⟩ := bind_eq_ok_iff.mp hdirectories
  obtain rfl : target = d := List.singleton_inj.mp (Except.ok.inj heq)
  -- the root is resolved, so the directory's path has no link on the way
  obtain ⟨l, hl, hdirectory, hsize⟩ := exists_pathOf_of_resolveTarget ht hroot htarget
  have hrun := run_refresh_path hroot hload hformat hplan hanalyzed
  refine ⟨questions, (a.analyze s.tree target).tree, hrecord, ?_, ?_, ?_⟩
  · intro hdecodes
    rw [if_pos hdecodes] at hrun
    exact ⟨r.toJson.pretty, hrun, r.read?_pretty⟩
  · intro hdecodes
    rwa [if_neg (by simp [hdecodes])] at hrun
  · subst hpath
    exact readText_of_write_iff ht hdirectory hl hsize hwrite

/-! ## Links at a draft -/

/-- A configuration that asks for JSON, and for nobody's help. -/
def jsonConfiguration : Configuration where
  ignorePatterns := []
  outputFormat := .json
  integrations := ⟨false, false⟩

/-- A project with this configuration, and with a link at the draft of its document. -/
def draftSession (target : String) : Session where
  tree := {
    entries := [([".dircontext.json"], .file jsonConfiguration.text.toUTF8 1),
      ([".context.md.tmp"], .link target)] }
  environment _ := none
  git _ _ := .ok none
  send _ := .unreachable "not connected"

section
variable (target : String)

lemma load_draftSession :
    Configuration.load (draftSession target).tree ⟨"/"⟩ = .ok jsonConfiguration :=
  Configuration.load_of_file (find_slash _) (by decide) (Configuration.ofText?_text _) rfl

/-- The point leads to the root itself. -/
lemma resolveTarget_point (ht : t.WellFormed) : resolveTarget t ⟨"/"⟩ ⟨"."⟩ = .ok ⟨"/"⟩ := by
  have hslash : t.ResolvesTo ⟨"/"⟩ [] .directory :=
    resolvesTo_of_find (find_slash t) (by decide +kernel)
  have hpoint : t.ResolvesTo ((⟨"/"⟩ : Path).join ⟨"."⟩) [] .directory := by
    have hsegments : segments ((⟨"/"⟩ : Path).join ⟨"."⟩).text = ["."] := by decide
    refine ⟨by decide, by decide, ?_, rfl, by decide +kernel⟩
    rw [startOf_of_isAbsolute (by decide), hsegments, walk_of_idle rfl (.inr rfl), walk_nil]
  refine (resolveTarget_eq_ok_iff ht).mpr ⟨[], [], .directory, .directory, hslash, hpoint, ?_, rfl⟩
  exact (isDirectory_pathOf_iff ht rfl (by simp) (by decide +kernel)).mpr rfl

variable {target} (ht : (draftSession target).tree.WellFormed)
include ht

lemma plan_draftSession : (draftSession target).plan ⟨"/"⟩ ⟨.path ⟨"."⟩, false, false⟩ =
    .ok ((draftSession target).analyzer jsonConfiguration ⟨⟨"/"⟩, []⟩, [⟨"/"⟩]) := by
  refine plan_eq_ok_iff.mpr ⟨_, _, load_draftSession target, rfl, rfl, ?_⟩
  exact bind_eq_ok_iff.mpr ⟨_, resolveTarget_point ht, rfl⟩

/-- Where the link leads to a name that is free, the analysis goes well. -/
lemma exists_analyze_draftSession (hname : IsEntryName target)
    (hfree : (draftSession target).tree.entryAt? [target] = none) :
    ∃ r, r.path = ⟨"/"⟩ ∧ (((draftSession target).analyzer jsonConfiguration ⟨⟨"/"⟩, []⟩).analyze
      (draftSession target).tree ⟨"/"⟩).result = .ok r := by
  obtain ⟨⟨r, questions⟩, hrecord⟩ := (exists_record_iff
    (a := (draftSession target).analyzer jsonConfiguration ⟨⟨"/"⟩, []⟩)).mpr
      ⟨[], find_slash (draftSession target).tree⟩
  have hpath : r.path = ⟨"/"⟩ := path_of_record hrecord
  have hroot : (draftSession target).tree.entryAt? [] = some .directory := rfl
  have hlink : (draftSession target).tree.entryAt? ([] ++ [draftName]) = some (.link target) := rfl
  have hadmitted : ((pathOf []).join ⟨draftName⟩).IsAdmitted := by decide
  have hlocate : (draftSession target).tree.locate (draftIn r.path) = .ok [target] := by
    unfold draftIn
    rw [hpath]
    have hdraft := locate_of_directories ht hroot isEntryName_draftName hadmitted
      fun _ _ hdir => hdir
    rw [walk_link_name hroot isEntryName_draftName hlink,
      walk_to_name hroot hname (by simp [hfree])] at hdraft
    exact hdraft
  have hwrite := write_of_link (hpath ▸ find_slash _) hlink hlocate (by simp)
    ⟨by simp [hfree], by simp [hfree]⟩ nofun
  refine ⟨r, hpath, ?_⟩
  unfold analyze
  rw [hrecord]
  simp only [hwrite, Except.map]

end

/-- The draft is a link to a name that is free, and the document is written and read. -/
theorem refresh_draftSession :
    (draftSession "spare.txt").tree.WellFormed ∧
      (draftSession "spare.txt").tree.realPath ⟨"/"⟩ = .ok ⟨"/"⟩ ∧
      Configuration.load (draftSession "spare.txt").tree ⟨"/"⟩ = .ok jsonConfiguration ∧
      jsonConfiguration.outputFormat = .json ∧
      ∃ a r object tree,
        (draftSession "spare.txt").plan ⟨"/"⟩ ⟨.path ⟨"."⟩, false, false⟩ = .ok (a, [⟨"/"⟩]) ∧
        (a.analyze (draftSession "spare.txt").tree ⟨"/"⟩).result = .ok r ∧
        Invocation.run ⟨⟨"/"⟩, .refresh ⟨.path ⟨"."⟩, false, false⟩⟩ (draftSession "spare.txt") =
          ⟨tree, 0, "Refreshed 1 of 1 directories\n" ++ object ++ "\n", ""⟩ ∧
        (Json.read? object).bind DirectoryRecord.ofJson? = some r ∧
        tree.readText (pathIn ⟨"/"⟩) = .ok (render r) := by
  have ht : (draftSession "spare.txt").tree.WellFormed := by decide
  have hroot := realPath_slash (draftSession "spare.txt").tree
  have hload := load_draftSession "spare.txt"
  have hplan := plan_draftSession ht
  have hname : IsEntryName "spare.txt" := by decide +kernel
  have hfree : (draftSession "spare.txt").tree.entryAt? ["spare.txt"] = none := rfl
  obtain ⟨r, -, hanalyzed⟩ := exists_analyze_draftSession ht hname hfree
  obtain ⟨questions, tree, -, hprinted, -, hdocument⟩ :=
    refresh_outputs_agree ht hroot hload rfl hplan hanalyzed
  obtain ⟨object, hrun, hobject⟩ := hprinted (by decide)
  refine ⟨ht, hroot, hload, rfl, _, r, object, tree, hplan, hanalyzed, hrun, hobject,
    hdocument.mpr ?_⟩
  intro l target hl hlink
  obtain rfl : [] = l := congrArg Prod.fst (Except.ok.inj ((find_slash _).symm.trans hl))
  cases hlink
  exact (leadsElsewhere_name_iff rfl hname (by simp [hfree])).mpr ⟨by decide, by decide⟩

/-- The draft is a link to the document. The refresh prints the record and tells no failure, but what
has the name of the document afterwards is not the record rendered. -/
theorem refresh_draft_over_document :
    ∃ a r tree, (draftSession fileName).tree.WellFormed ∧
      (draftSession fileName).tree.realPath ⟨"/"⟩ = .ok ⟨"/"⟩ ∧
      Configuration.load (draftSession fileName).tree ⟨"/"⟩ = .ok jsonConfiguration ∧
      jsonConfiguration.outputFormat = .json ∧
      (draftSession fileName).plan ⟨"/"⟩ ⟨.path ⟨"."⟩, false, false⟩ = .ok (a, [⟨"/"⟩]) ∧
      (a.analyze (draftSession fileName).tree ⟨"/"⟩).result = .ok r ∧
      Invocation.run ⟨⟨"/"⟩, .refresh ⟨.path ⟨"."⟩, false, false⟩⟩ (draftSession fileName) =
        ⟨tree, 0, "Refreshed 1 of 1 directories\n" ++ r.toJson.pretty ++ "\n", ""⟩ ∧
      tree.readText (pathIn ⟨"/"⟩) ≠ .ok (render r) := by
  have ht : (draftSession fileName).tree.WellFormed := by decide
  have hroot := realPath_slash (draftSession fileName).tree
  have hload := load_draftSession fileName
  have hplan := plan_draftSession ht
  obtain ⟨r, hpath, hanalyzed⟩ :=
    exists_analyze_draftSession ht isEntryName_fileName rfl
  have hrun := run_refresh_path hroot hload rfl hplan hanalyzed
  rw [if_pos (by decide)] at hrun
  refine ⟨_, r, _, ht, hroot, hload, rfl, hplan, hanalyzed, hrun, fun hread => ?_⟩
  -- had it been read, the link would lead elsewhere, but it leads to the document
  have hfree : (draftSession fileName).tree.entryAt? [fileName] = none := rfl
  have hleads : ¬LeadsElsewhere (draftSession fileName).tree [] fileName := by
    rw [leadsElsewhere_name_iff rfl isEntryName_fileName (by simp [hfree])]
    exact fun hnot => hnot.2 rfl
  obtain ⟨-, -, -, hwritten⟩ := exists_write_of_analyze hanalyzed
  have hslash : r.path = pathOf [] := hpath.trans (by decide)
  have hdraft := (readText_of_write_iff ht rfl hslash (by decide +kernel) hwritten).mp
    (by rw [hpath]; exact hread)
  exact hleads (hdraft [] fileName (hpath ▸ find_slash _) rfl)

end DirectoryNotes
