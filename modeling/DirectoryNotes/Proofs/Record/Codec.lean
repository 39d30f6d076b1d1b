import DirectoryNotes.Proofs.Json.RoundTrip
import DirectoryNotes.Record.Codec

/-!
# Records in writing

A record written as JSON is taken out of it again as it was, with every number and every list of it:

* `FileSummary.ofJson?_toJson`, `Change.ofJson?_toJson`, `Dependency.ofJson?_toJson`: its parts;
* `DirectoryRecord.ofJson?_toJson`, `DirectoryRecord.isExact_toJson`: the record, from its parts;
* `DirectoryRecord.read?_pretty`: a record on lines of its own.
-/

namespace DirectoryNotes

open Json

/-! ## Files, changes and dependencies -/

lemma FileSummary.ofJson?_toJson (f : FileSummary) : ofJson? f.toJson = some f := by
  have himportance : (nat f.importance.toNat).asNatBelow? UInt8.size = some f.importance.toNat :=
    asNatBelow?_nat f.importance.toNat_lt_size
  have hmodified : (nat f.modified.toNat).asNatBelow? UInt64.size = some f.modified.toNat :=
    asNatBelow?_nat f.modified.toNat_lt_size
  unfold ofJson? toJson
  -- steps that hold by computation would make the kernel compute with the limits
  simp -implicitDefEqProofs [asFields?_object, need?_cons, asText?, himportance,
    hmodified, asTexts?_texts]

lemma Change.ofJson?_toJson (c : Change) : ofJson? c.toJson = some c := by
  unfold ofJson? toJson
  simp [asFields?_object, need?_cons, asText?, asTexts?_texts]

lemma DependencyKind.ofName?_name (kind : DependencyKind) : ofName? kind.name = some kind := by
  cases kind <;> decide

lemma Dependency.ofJson?_toJson (d : Dependency) : ofJson? d.toJson = some d := by
  unfold ofJson? toJson
  simp [asFields?_object, need?_cons, asText?, asName?, DependencyKind.ofName?_name]

lemma FileSummary.isExact_toJson (f : FileSummary) : IsExact f.toJson := by
  simp [toJson, nat, IsExact, HasExactFields, isExact_texts]

lemma Change.isExact_toJson (c : Change) : IsExact c.toJson := by
  simp [toJson, IsExact, HasExactFields, isExact_texts]

lemma Dependency.isExact_toJson (d : Dependency) : IsExact d.toJson := by
  simp [toJson, IsExact, HasExactFields]

/-! ## Records -/

namespace DirectoryRecord

/-- A record is taken out of its JSON as it was. -/
theorem ofJson?_toJson (r : DirectoryRecord) : ofJson? r.toJson = some r := by
  have hfiles := asList?_map FileSummary.ofJson?_toJson r.keyFiles
  have hchanges := asList?_map Change.ofJson?_toJson r.recentChanges
  have hdependencies := asList?_map Dependency.ofJson?_toJson r.dependencies
  unfold ofJson? toJson
  simp [asFields?_object, need?_cons, asText?, asTexts?_texts, hfiles, hchanges, hdependencies]

lemma isExact_toJson (r : DirectoryRecord) : IsExact r.toJson := by
  have hfiles := areExact_map FileSummary.isExact_toJson r.keyFiles
  have hchanges := areExact_map Change.isExact_toJson r.recentChanges
  have hdependencies := areExact_map Dependency.isExact_toJson r.dependencies
  simp [toJson, IsExact, HasExactFields, isExact_texts, hfiles, hchanges, hdependencies]

/-- A record on lines of its own is read as it was. -/
theorem read?_pretty (r : DirectoryRecord) : (Json.read? r.toJson.pretty).bind ofJson? = some r := by
  have hblanks : IsGap ("" : String).toList := by decide
  have hread := Json.read?_pretty r.isExact_toJson hblanks
  rw [String.append_empty] at hread
  rw [hread]
  exact r.ofJson?_toJson

end DirectoryRecord

end DirectoryNotes
