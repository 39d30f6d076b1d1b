import DirectoryNotes.Configuration
import DirectoryNotes.Proofs.FileTree.Stores
import DirectoryNotes.Proofs.Json.RoundTrip

/-!
# Keeping a configuration

A configuration that is saved in a project is loaded as it was, whatever its patterns are made of:

* `Configuration.ofText?_text`: the text of a configuration stands for it;
* `Configuration.IsEdited`, `Configuration.ofText?_edited`: so does any other text in which its fields
  are written, and where fields are gone there are defaults;
* `Configuration.eq_put_of_save`: saving puts the text as a file into the root and does nothing else;
* `Configuration.load_of_file`: loading gives back what the text stands for;
* `Configuration.load_saved_or_edited`: what is loaded after saving, and after an edit.
-/

namespace DirectoryNotes

open FileTree Json

/-! ## The text -/

lemma Mode.ofName?_name (mode : Mode) : ofName? mode.name = some mode := by
  cases mode <;> decide

lemma OutputFormat.ofName?_name (format : OutputFormat) : ofName? format.name = some format := by
  cases format <;> decide

/-- The fields of the integrations in writing. -/
def Integrations.fields (i : Integrations) : List (String × Json) :=
  [("git", .bool i.git), ("claude", .bool i.assistant)]

/-- The integrations with the defaults in place of what is not kept. -/
def Integrations.restricted (i : Integrations) (kept : String → Bool) : Integrations :=
  let base : Integrations := {}
  { git := if kept "git" then i.git else base.git
    assistant := if kept "claude" then i.assistant else base.assistant }

lemma Integrations.ofJson?_edited {i : Integrations} {kept : String → Bool}
    {edited : List (String × Json)} (h : IsEdit kept i.fields edited) :
    ofJson? (.object edited) = some (i.restricted kept) := by
  have hfields : (Json.object edited).asFields? ["git", "claude"] = _ :=
    asFields?_edited rfl (by decide) h
  have hgit : i.fields.lookup "git" = some (.bool i.git) := rfl
  have hassistant : i.fields.lookup "claude" = some (.bool i.assistant) := rfl
  have hbool : ∀ b, asBool? (.bool b) = some b := fun _ => rfl
  unfold ofJson?
  rw [hfields]
  simp only [Option.bind_eq_bind, Option.bind_some]
  rw [orElse?_edited hgit (hbool _), orElse?_edited hassistant (hbool _)]
  rfl

namespace Configuration

/-- The fields of a configuration in writing, with a value for the integrations. -/
def fields (c : Configuration) (integrations : Json) : List (String × Json) :=
  [("version", .text c.version), ("mode", .text c.mode.name),
    ("ignorePatterns", .texts c.ignorePatterns), ("analysisFocus", .texts c.focus),
    ("outputFormat", .text c.outputFormat.name), ("integrations", integrations)]

/-- A configuration in writing after an edit: fields are taken away, put into another order and added,
among its own and among those of the integrations. -/
def IsEdited (c : Configuration) (kept keptInside : String → Bool)
    (edited : List (String × Json)) : Prop :=
  ∃ inside, IsEdit keptInside c.integrations.fields inside ∧
    IsEdit kept (c.fields (.object inside)) edited

/-- The configuration with the defaults in place of what is not kept. -/
def restricted (c : Configuration) (kept keptInside : String → Bool) : Configuration :=
  let base : Configuration := {}
  { version := if kept "version" then c.version else base.version
    mode := if kept "mode" then c.mode else base.mode
    ignorePatterns := if kept "ignorePatterns" then c.ignorePatterns else base.ignorePatterns
    focus := if kept "analysisFocus" then c.focus else base.focus
    outputFormat := if kept "outputFormat" then c.outputFormat else base.outputFormat
    integrations :=
      if kept "integrations" then c.integrations.restricted keptInside else base.integrations }

variable {t saved : FileTree} {root : Path} {l : Location} {c : Configuration}
  {kept keptInside : String → Bool} {edited : List (String × Json)}

/-- Of an edited configuration what is kept is found, and for the rest there are defaults. -/
lemma ofJson?_edited (h : c.IsEdited kept keptInside edited) :
    ofJson? (.object edited) = some (c.restricted kept keptInside) := by
  obtain ⟨inside, hinside, hedit⟩ := h
  have hfields : (Json.object edited).asFields? ["version", "mode", "ignorePatterns",
      "analysisFocus", "outputFormat", "integrations"] = _ := asFields?_edited rfl (by decide) hedit
  -- every field is found under its name, and what is written there is what it was made of
  have hversion : (c.fields (.object inside)).lookup "version" = some (.text c.version) := rfl
  have hmode : (c.fields (.object inside)).lookup "mode" = some (.text c.mode.name) := rfl
  have hpatterns : (c.fields (.object inside)).lookup "ignorePatterns" =
      some (.texts c.ignorePatterns) := rfl
  have hfocus : (c.fields (.object inside)).lookup "analysisFocus" = some (.texts c.focus) := rfl
  have hformat : (c.fields (.object inside)).lookup "outputFormat" =
      some (.text c.outputFormat.name) := rfl
  have hintegrations : (c.fields (.object inside)).lookup "integrations" =
      some (.object inside) := rfl
  have htext : asText? (.text c.version) = some c.version := rfl
  unfold ofJson?
  rw [hfields]
  simp only [Option.bind_eq_bind, Option.bind_some]
  rw [orElse?_edited hversion htext, orElse?_edited hmode (Mode.ofName?_name _),
    orElse?_edited hpatterns (asTexts?_texts _), orElse?_edited hfocus (asTexts?_texts _),
    orElse?_edited hformat (OutputFormat.ofName?_name _),
    orElse?_edited hintegrations (Integrations.ofJson?_edited hinside)]
  rfl

lemma isEdited_self (c : Configuration) :
    c.IsEdited (fun _ => true) (fun _ => true) (c.fields c.integrations.toJson) :=
  ⟨_, isEdit_self _, isEdit_self _⟩

lemma ofJson?_toJson (c : Configuration) : ofJson? c.toJson = some c :=
  ofJson?_edited c.isEdited_self

lemma isExact_toJson (c : Configuration) : IsExact c.toJson := by
  simp [toJson, Integrations.toJson, IsExact, HasExactFields, isExact_texts]

/-- The text of a configuration is one of its form. -/
lemma isText_text (c : Configuration) : IsText c.toJson c.text :=
  isText_pretty c.isExact_toJson (by decide)

/-- Every text of an edited configuration stands for what the edit has kept. -/
theorem ofText?_edited {text : String} (h : c.IsEdited kept keptInside edited)
    (htext : IsText (.object edited) text) : ofText? text = some (c.restricted kept keptInside) := by
  unfold ofText?
  rw [read?_of_isText htext]
  exact ofJson?_edited h

/-- A configuration in writing stands for what was written. -/
theorem ofText?_text (c : Configuration) : ofText? c.text = some c :=
  ofText?_edited c.isEdited_self c.isText_text

/-! ## The file -/

lemma isEntryName_fileName : IsEntryName fileName := by decide

/-- A configuration that could be saved is a file in the root. -/
lemma eq_put_of_save (ht : t.IsProject root l) (h : c.save t root = .ok saved) :
    (pathIn root).IsAdmitted ∧ t.Vacant (l ++ [fileName]) ∧
      saved = t.put (l ++ [fileName]) (.file c.text.toUTF8 t.clock) := by
  have hlink : ∀ target, t.entryAt? (l ++ [fileName]) ≠ some (.link target) := ht.linkFree [fileName]
  have hwrite : t.write (pathIn root) c.text.toUTF8 = .ok saved := by
    unfold save writeText FileError.lift at h
    split at h
    · next heq => rw [heq, Except.ok.inj h]
    · cases h
  -- a path that may not be taken, and a directory in the place, would have been refused
  by_cases hadmitted : (pathIn root).IsAdmitted
  · have hjoin := write_join (leadsInto_of_find ht.root) isEntryName_fileName hlink hadmitted c.text.toUTF8
    rw [← pathIn, hwrite] at hjoin
    split at hjoin
    · cases hjoin
    · next hno =>
      rw [any_isDirectory_iff] at hno
      exact ⟨hadmitted, ⟨hno, hlink⟩, Except.ok.inj hjoin⟩
  · obtain ⟨reason, hreason⟩ := write_join_not_admitted t hadmitted c.text.toUTF8
    cases hreason.symm.trans hwrite

/-- Saving a configuration stores its file. -/
lemma stores_of_save (ht : t.IsProject root l) (h : c.save t root = .ok saved) :
    t.Stores saved l [[fileName]] := by
  obtain ⟨-, hvacant, rfl⟩ := eq_put_of_save ht h
  exact stores_put ht.wellFormed (find_eq_ok_iff.mp ht.root).2 isEntryName_fileName hvacant

/-- What the text of the file stands for is loaded. -/
lemma load_of_readText {text : String} (h : t.readText (pathIn root) = .ok text)
    (htext : ofText? text = some c) : load t root = .ok c := by
  obtain ⟨k, bytes, seconds, hfind, -⟩ := readText_eq_ok_iff.mp h
  unfold load existsIn
  rw [if_pos (isFile_iff.mpr ⟨k, bytes, seconds, hfind⟩), h]
  simp only [bind, Except.bind, FileError.lift, htext]

lemma load_of_file {text : String} {seconds : Int64} (hroot : t.find root = .ok (l, .directory))
    (hadmitted : (pathIn root).IsAdmitted) (htext : ofText? text = some c)
    (h : t.entryAt? (l ++ [fileName]) = some (.file text.toUTF8 seconds)) : load t root = .ok c := by
  have hfind : t.find (pathIn root) = .ok (l ++ [fileName], .file text.toUTF8 seconds) :=
    (find_join_iff hroot isEntryName_fileName.toIsPlainName (by simp [h])).mpr
      ⟨hadmitted, isEntryName_fileName.size_le, rfl, h⟩
  refine load_of_readText ?_ htext
  rw [readText_of_find hfind, Document.fromUTF8?_toUTF8]

/-- Saving leaves the text of the configuration in its file, over whatever links that is reached. -/
lemma readText_of_save (ht : t.WellFormed) (h : c.save t root = .ok saved) :
    saved.readText (pathIn root) = .ok c.text := by
  unfold save FileError.lift at h
  split at h
  · next heq =>
    rw [Except.ok.injEq] at h
    exact readText_of_writeText ht (h ▸ heq)
  · cases h

/-- A configuration that could be saved is loaded as it was. And from any text of its form, however it
is laid out and spelled, in which fields were taken away, put into another order or added, here and
among the integrations, it is loaded with the defaults in place of the fields that are gone. -/
theorem load_saved_or_edited (ht : t.WellFormed) (c : Configuration) (root : Path) :
    (∀ saved, c.save t root = .ok saved →
      saved.readText (pathIn root) = .ok c.text ∧ load saved root = .ok c) ∧
    IsText c.toJson c.text ∧
    ∀ kept keptInside edited text, c.IsEdited kept keptInside edited →
      IsText (.object edited) text → ∀ after : FileTree,
      after.readText (pathIn root) = .ok text →
        load after root = .ok (c.restricted kept keptInside) := by
  refine ⟨fun saved hsaved => ?_, c.isText_text, ?_⟩
  · have hread := readText_of_save ht hsaved
    exact ⟨hread, load_of_readText hread c.ofText?_text⟩
  · intro kept keptInside edited text hedit htext after hread
    exact load_of_readText hread (ofText?_edited hedit htext)

/-- A configuration with a quote and a line end in its version. -/
def deepConfiguration : Configuration where
  version := "2\n\""
  mode := .deep
  outputFormat := .json
  integrations := ⟨false, true⟩

/-- Of its fields the version and one integration are kept, in another order and with a new field
between them. -/
def deepFields : List (String × Json) :=
  [("integrations", .object [("claude", .bool true)]), ("new", .list [.null, .object []]),
    ("version", .text "2\n\"")]

lemma isEdited_deepFields : deepConfiguration.IsEdited
    (["version", "integrations"].contains ·) (["claude"].contains ·) deepFields :=
  ⟨[("claude", .bool true)], .refl _, .swap _ _ _⟩

/-- In an empty tree any text can be written as the configuration of the root directory. -/
lemma exists_writeText_empty (text : String) :
    ∃ saved, ({} : FileTree).writeText (pathIn ⟨"/"⟩) text = .ok saved := by
  have hadmitted : ((⟨"/"⟩ : Path).join ⟨fileName⟩).IsAdmitted := by decide
  have hlink : ∀ target, ({} : FileTree).entryAt? ([] ++ [fileName]) ≠ some (.link target) := nofun
  exact ⟨_, write_join (leadsInto_of_find (find_slash _)) isEntryName_fileName hlink hadmitted text.toUTF8⟩

theorem load_deepConfiguration :
    ({} : FileTree).WellFormed ∧
      ∃ saved after, deepConfiguration.save {} ⟨"/"⟩ = .ok saved ∧
        load saved ⟨"/"⟩ = .ok deepConfiguration ∧
        after.readText (pathIn ⟨"/"⟩) = .ok ((Json.object deepFields).pretty ++ "") ∧
        load after ⟨"/"⟩ = .ok { version := "2\n\"", integrations := ⟨true, true⟩ } := by
  have ht : ({} : FileTree).WellFormed := by decide
  obtain ⟨hsaved, -, hedited⟩ := load_saved_or_edited ht deepConfiguration ⟨"/"⟩
  obtain ⟨saved, hwrite⟩ := exists_writeText_empty deepConfiguration.text
  have hsave : deepConfiguration.save {} ⟨"/"⟩ = .ok saved := by
    rw [save, hwrite, FileError.lift]
  obtain ⟨after, hafter⟩ := exists_writeText_empty ((Json.object deepFields).pretty ++ "")
  have hread := readText_of_writeText ht hafter
  have hexact : IsExact (.object deepFields) := by
    simp [deepFields, IsExact, HasExactFields, AreExact]
  refine ⟨ht, saved, after, hsave, (hsaved saved hsave).2, hread, ?_⟩
  rw [hedited _ _ _ _ isEdited_deepFields (isText_pretty hexact (by decide)) after hread]
  decide

end Configuration

end DirectoryNotes
