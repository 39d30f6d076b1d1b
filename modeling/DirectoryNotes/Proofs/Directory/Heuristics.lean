import DirectoryNotes.Directory.Analysis
import DirectoryNotes.Proofs.Directory.Summary
import DirectoryNotes.Proofs.Path.Relative
import DirectoryNotes.Proofs.Text.Occurrences
import Mathlib.Data.String.Basic

/-!
# What is counted in a directory

The commonest extension and the packages that are named are both found by going through a list once:

* `Outdoes`, `IsCommonest`: what it is to be the commonest, and `leads_commoner`: one step of the
  search keeps the commonest of what it has seen;
* `dominantExtension?_eq_some_iff`, `dominantExtension?_eq_none_iff`: what the search finds, so that
  the order of the files does not matter;
* `isRoster_packages`: the packages are the first ones in the order in which they come up;
* `sourceSummaries_eq_nil`: where no file has an extension, there are no facts about files;
* `heuristics_counted`: all of it together, with the sentence that names the packages.
-/

namespace DirectoryNotes

/-! ## Names that have an extension -/

section
variable {p : Path} {name : String}

/-- The last name in a path is a name. -/
lemma Path.isPlainName_of_fileName? (h : p.fileName? = some name) : IsPlainName name := by
  unfold Path.fileName? at h
  split at h
  case h_2 => cases h
  case h_1 text hlast =>
    obtain rfl := Option.some.inj h
    -- the root is no name, so it is one of the segments
    rcases List.mem_append.mp (List.mem_of_getLast? hlast) with hopening | hsegments
    · cases hp : p.opened.1 <;> rw [hp] at hopening <;> simp [Path.Opening.parts] at hopening
    · obtain ⟨segment, hsegment, hpart⟩ := List.mem_filterMap.mp hsegments
      have hidle : Path.isIdle segment = false := by
        rw [Path.isIdle, hpart]
        rfl
      have hup : PathPart.ofSegment? segment ≠ some .up := by simp [hpart]
      obtain ⟨found, hfound, rfl⟩ :=
        Path.exists_name_of_segment (Path.notMem_of_mem_opened hsegment) hidle hup
      rw [hfound.ofSegment?_eq] at hpart
      cases hpart
      exact hfound

/-- A path with an extension has a last name with that extension. -/
lemma Path.extension?_displayName {ext : String} (h : p.extension? = some ext) :
    FileName.extension? p.displayName = some (Text.lower ext) := by
  have hp := h
  unfold Path.extension? at hp
  obtain ⟨name, hname, -⟩ := Option.bind_eq_some_iff.mp hp
  have hshown : p.displayName = name := by rw [Path.displayName, hname, Option.getD_some]
  have hsame : (Path.mk name).extension? = p.extension? := by
    rw [Path.extension?, Path.extension?, hname,
      Path.fileName?_mk (Path.isPlainName_of_fileName? hname)]
  rw [hshown, FileName.extension?, hsame, h, Option.map_some]

end

namespace Directory

variable {count : String → Nat} {seen names : List String} {best : Option (String × Nat)}
  {ext other third : String} {n : Nat}

/-! ## The commonest of some texts -/

/-- One text outdoes another: it is more common, or as common and before it in the alphabet. -/
def Outdoes (count : String → Nat) (ext other : String) : Prop :=
  count other < count ext ∨ count other = count ext ∧ ext < other

lemma Outdoes.trans (h : Outdoes count ext other) (h' : Outdoes count other third) :
    Outdoes count ext third := by
  unfold Outdoes at *
  rcases h with h | ⟨h, hlt⟩ <;> rcases h' with h' | ⟨h', hlt'⟩
  · exact .inl (h'.trans h)
  · exact .inl (h' ▸ h)
  · exact .inl (h ▸ h')
  · exact .inr ⟨h'.trans h, hlt.trans hlt'⟩

lemma Outdoes.asymm (h : Outdoes count ext other) : ¬Outdoes count other ext := by
  rintro (h' | ⟨h', hlt'⟩) <;> rcases h with h | ⟨h, hlt⟩
  · omega
  · omega
  · omega
  · exact lt_asymm hlt hlt'

/-- Of two texts, one outdoes the other. -/
lemma outdoes_total (hne : ext ≠ other) : Outdoes count ext other ∨ Outdoes count other ext := by
  rcases Nat.lt_trichotomy (count other) (count ext) with h | h | h
  · exact .inl (.inl h)
  · rcases lt_or_gt_of_ne hne with hlt | hlt
    · exact .inl (.inr ⟨h, hlt⟩)
    · exact .inr (.inr ⟨h.symm, hlt⟩)
  · exact .inr (.inl h)

/-- One of some texts that outdoes all others. -/
structure IsCommonest (count : String → Nat) (seen : List String) (ext : String) : Prop where
  mem : ext ∈ seen
  outdoes : ∀ other ∈ seen, other ≠ ext → Outdoes count ext other

lemma IsCommonest.unique (h : IsCommonest count seen ext) (h' : IsCommonest count seen other) :
    ext = other := by
  by_contra hne
  exact (h.outdoes other h'.mem (Ne.symm hne)).asymm (h'.outdoes ext h.mem hne)

/-- One more text is the commonest, if it outdoes the one that was. -/
lemma IsCommonest.concat_of_outdoes (h : IsCommonest count seen other)
    (hext : Outdoes count ext other) : IsCommonest count (seen ++ [ext]) ext := by
  refine ⟨List.mem_append_right _ List.mem_cons_self, fun third hthird hne => ?_⟩
  rcases List.mem_append.mp hthird with hthird | hthird
  · by_cases hsame : third = other
    · rwa [hsame]
    · exact hext.trans (h.outdoes third hthird hsame)
  · exact absurd (List.mem_singleton.mp hthird) hne

/-- One more text that does not outdo the commonest leaves it so. -/
lemma IsCommonest.concat_of_not (h : IsCommonest count seen other)
    (hext : ¬Outdoes count ext other) : IsCommonest count (seen ++ [ext]) other := by
  refine ⟨List.mem_append_left _ h.mem, fun third hthird hne => ?_⟩
  rcases List.mem_append.mp hthird with hthird | hthird
  · exact h.outdoes third hthird hne
  · obtain rfl := List.mem_singleton.mp hthird
    exact (outdoes_total hne).resolve_left hext

/-! ## The search for the commonest -/

/-- The best so far is the commonest of what the search has seen, with its count; there is none before
the first. -/
def Leads (extensions seen : List String) : Option (String × Nat) → Prop
  | none => seen = []
  | some (ext, n) => IsCommonest (extensions.count ·) seen ext ∧ n = extensions.count ext

/-- A step of the search. -/
lemma leads_commoner {extensions : List String} (h : Leads extensions seen best) (ext : String) :
    Leads extensions (seen ++ [ext]) (commoner extensions best ext) := by
  cases best with
  | none =>
    obtain rfl : seen = [] := h
    refine ⟨⟨List.mem_cons_self, fun other hother hne => ?_⟩, rfl⟩
    exact absurd (List.mem_singleton.mp hother) hne
  | some found =>
    obtain ⟨other, most⟩ := found
    obtain ⟨hcommonest, rfl⟩ := h
    unfold commoner
    dsimp only
    split
    · next hmore =>
      exact ⟨hcommonest.concat_of_outdoes (hmore.imp_right fun htie => ⟨htie.1.symm, htie.2⟩), rfl⟩
    · next hless =>
      refine ⟨hcommonest.concat_of_not fun hmore => hless ?_, rfl⟩
      exact hmore.imp_right fun htie => ⟨htie.1.symm, htie.2⟩

/-- The whole search. -/
lemma leads_foldl {extensions : List String} (h : Leads extensions seen best) (rest : List String) :
    Leads extensions (seen ++ rest) (rest.foldl (commoner extensions) best) := by
  induction rest generalizing seen best with
  | nil => rwa [List.append_nil]
  | cons ext rest ih =>
    have hstep := ih (leads_commoner h ext)
    rwa [List.append_assoc, List.singleton_append] at hstep

lemma leads_dominantExtension? (names : List String) :
    Leads (extensionsOf names) (extensionsOf names) (dominantExtension? names) := by
  have hnone : Leads (extensionsOf names) [] none := rfl
  exact leads_foldl hnone (extensionsOf names)

/-- How many files have an extension. -/
def filesWith (names : List String) (ext : String) : Nat :=
  names.countP fun name => FileName.extension? name == some ext

lemma count_extensionsOf (names : List String) :
    ((extensionsOf names).count ·) = filesWith names := by
  funext ext
  rw [extensionsOf, List.count_filterMap]
  rfl

/-- The search finds the commonest extension and the number of files that have it. -/
theorem dominantExtension?_eq_some_iff : dominantExtension? names = some (ext, n) ↔
    IsCommonest (filesWith names) (extensionsOf names) ext ∧ n = filesWith names ext := by
  have hleads := leads_dominantExtension? names
  have hcount : ∀ e, (extensionsOf names).count e = filesWith names e :=
    congrFun (count_extensionsOf names)
  cases hbest : dominantExtension? names with
  | none =>
    rw [hbest] at hleads
    have hnil : extensionsOf names = [] := hleads
    constructor
    · rintro ⟨⟩
    · rintro ⟨hext, -⟩
      rw [hnil] at hext
      exact absurd hext.mem List.not_mem_nil
  | some found =>
    obtain ⟨other, most⟩ := found
    rw [hbest] at hleads
    obtain ⟨hcommonest, rfl⟩ := hleads
    rw [count_extensionsOf] at hcommonest
    rw [hcount, Option.some.injEq, Prod.mk.injEq]
    constructor
    · rintro ⟨rfl, rfl⟩
      exact ⟨hcommonest, rfl⟩
    · rintro ⟨hext, rfl⟩
      obtain rfl := hcommonest.unique hext
      exact ⟨rfl, rfl⟩

/-- An extension, in small letters, that more files have than any other, or as many where it is the
first in the alphabet. -/
structure IsDominant (names : List String) (ext : String) : Prop where
  lowered : ∃ name ∈ names, ∃ written, (Path.mk name).extension? = some written ∧
    Text.lower written = ext
  outdoes : ∀ other ∈ extensionsOf names, other ≠ ext → Outdoes (filesWith names) ext other

lemma IsCommonest.isDominant (h : IsCommonest (filesWith names) (extensionsOf names) ext) :
    IsDominant names ext := by
  obtain ⟨name, hname, hext⟩ := List.mem_filterMap.mp h.mem
  obtain ⟨written, hwritten, hlower⟩ := Option.map_eq_some_iff.mp hext
  exact ⟨⟨name, hname, written, hwritten, hlower⟩, h.outdoes⟩

/-- The search finds nothing where no file has an extension. -/
theorem dominantExtension?_eq_none_iff : dominantExtension? names = none ↔
    ∀ name ∈ names, FileName.extension? name = none := by
  have hleads := leads_dominantExtension? names
  rw [← List.filterMap_eq_nil_iff, ← extensionsOf]
  constructor
  · intro hnone
    rw [hnone] at hleads
    exact hleads
  · intro hnil
    rw [dominantExtension?, hnil]
    rfl

/-- Where some file has an extension, one extension is dominant, and it is found with the number of
its files. -/
lemma exists_isDominant (h : ∃ name ∈ names, FileName.extension? name ≠ none) :
    ∃ ext, dominantExtension? names = some (ext, filesWith names ext) ∧ IsDominant names ext := by
  obtain ⟨name, hname, hext⟩ := h
  cases hbest : dominantExtension? names with
  | none => exact absurd (dominantExtension?_eq_none_iff.mp hbest name hname) hext
  | some found =>
    obtain ⟨ext, n⟩ := found
    obtain ⟨hcommonest, rfl⟩ := dominantExtension?_eq_some_iff.mp hbest
    exact ⟨ext, rfl, hcommonest.isDominant⟩

/-- The order of the files does not matter. -/
theorem dominantExtension?_perm {names' : List String} (h : names'.Perm names) :
    dominantExtension? names' = dominantExtension? names := by
  -- what the search finds is said with counts and members only
  have hcount : filesWith names' = filesWith names := by
    funext ext
    exact h.countP_eq _
  have hmem : ∀ ext, ext ∈ extensionsOf names' ↔ ext ∈ extensionsOf names :=
    fun ext => (h.filterMap _).mem_iff
  have hcommonest : ∀ ext, IsCommonest (filesWith names) (extensionsOf names') ext ↔
      IsCommonest (filesWith names) (extensionsOf names) ext := by
    intro ext
    constructor
    · exact fun h => ⟨(hmem ext).mp h.mem, fun other ho => h.outdoes other ((hmem other).mpr ho)⟩
    · exact fun h => ⟨(hmem ext).mpr h.mem, fun other ho => h.outdoes other ((hmem other).mp ho)⟩
  refine Option.ext fun found => ?_
  rw [dominantExtension?_eq_some_iff, dominantExtension?_eq_some_iff, hcount, hcommonest]

/-! ## Packages -/

/-- The modules from outside the project that files refer to, as often as they do. -/
def externalModules (sources : List SourceSummary) : List String :=
  sources.flatMap fun s => (s.facts.imports.filter (·.isExternal)).map (·.source)

/-- The packages are the first three modules that come up, or all of them if there are fewer. -/
lemma isRoster_packages (sources : List SourceSummary) :
    ∃ roster, Text.IsRoster roster (externalModules sources) ∧ packages sources = roster.take 3 ∧
      (packages sources).length = min 3 (externalModules sources).toFinset.card := by
  have hroster := Text.isRoster_firstOccurrences (externalModules sources)
  have htake : packages sources = (Text.firstOccurrences (externalModules sources)).take 3 := by
    rw [packages, externalModules, List.filter_flatMap, List.map_flatMap]
    rfl
  refine ⟨_, hroster, htake, ?_⟩
  rw [htake, List.length_take, hroster.length_eq]

/-- The sentence that names packages, if there are any. -/
def packageSentence (named : List String) : List String :=
  if named = [] then [] else ["External dependencies: " ++ ", ".intercalate named ++ "."]

/-- Where some file has an extension, the architecture names the packages behind it. -/
lemma architecture_of_dominant (sources : List SourceSummary)
    (h : dominantExtension? names = some (ext, n)) :
    ∃ notes, notes.Sublist ["Includes tests.", "Includes type definitions."] ∧
      architecture names sources = " ".intercalate
        (["Primarily ." ++ ext ++ " files (" ++ toString n ++ " of " ++ toString names.length ++ ")."]
          ++ packageSentence (packages sources) ++ notes) := by
  refine ⟨(if names.any FileName.isTest then ["Includes tests."] else [])
    ++ (if names.any FileName.isTypeDefinition then ["Includes type definitions."] else []), ?_, ?_⟩
  · cases names.any FileName.isTest <;> cases names.any FileName.isTypeDefinition <;> decide
  · rw [architecture, h]
    simp only [packageSentence, List.isEmpty_iff, List.append_assoc]
    rfl

/-- Facts are known of files with an extension only, so that no package goes unnamed where there is no
dominant extension. -/
lemma sourceSummaries_eq_nil {t : FileTree} {paths : List Path}
    (h : dominantExtension? ((paths.map (InspectedFile.inspect t)).map (·.summary.name)) = none) :
    (paths.map (InspectedFile.inspect t)).filterMap (·.sourceSummary?) = [] := by
  rw [dominantExtension?_eq_none_iff] at h
  refine List.filterMap_eq_nil_iff.mpr fun file hfile => ?_
  have hnone := h _ (List.mem_map_of_mem hfile)
  obtain ⟨p, -, rfl⟩ := List.mem_map.mp hfile
  rw [InspectedFile.name_inspect] at hnone
  -- a file is read for its extension, which its last name has too
  have hreadable : Source.isReadable p = false := by
    unfold Source.isReadable
    split
    · next written hwritten =>
      rw [Path.extension?_displayName hwritten] at hnone
      cases hnone
    · rfl
  have hsource : InspectedFile.source t p = none := by
    unfold InspectedFile.source Source.analyze?
    split
    · rw [hreadable]
      rfl
    · rfl
  rw [InspectedFile.sourceSummary?, InspectedFile.inspect, hsource, Option.map_none]

/-- Where some file has an extension, the dominant one is found with the number of its files, in
whatever order the files come. The packages that the architecture names are the first three that
come up; it names none only where there are no extensions, and then no facts either. -/
theorem heuristics_counted (names : List String) (sources : List SourceSummary) :
    ((∃ name ∈ names, FileName.extension? name ≠ none) →
      ∃ ext, dominantExtension? names = some (ext, filesWith names ext) ∧ IsDominant names ext) ∧
    (∀ other : List String, other.Perm names →
      dominantExtension? other = dominantExtension? names) ∧
    (dominantExtension? names = none ↔ ∀ name ∈ names, FileName.extension? name = none) ∧
    (∃ roster, Text.IsRoster roster (externalModules sources) ∧ packages sources = roster.take 3 ∧
      (packages sources).length = min 3 (externalModules sources).toFinset.card) ∧
    (∀ ext n, dominantExtension? names = some (ext, n) →
      ∃ notes, notes.Sublist ["Includes tests.", "Includes type definitions."] ∧
        architecture names sources = " ".intercalate
          (["Primarily ." ++ ext ++ " files (" ++ toString n ++ " of " ++ toString names.length
            ++ ")."] ++ packageSentence (packages sources) ++ notes)) ∧
    (∀ (t : FileTree) (paths : List Path),
      dominantExtension? ((paths.map (InspectedFile.inspect t)).map (·.summary.name)) = none →
        externalModules ((paths.map (InspectedFile.inspect t)).filterMap (·.sourceSummary?)) = []) := by
  refine ⟨exists_isDominant, fun _ => dominantExtension?_perm, dominantExtension?_eq_none_iff,
    isRoster_packages sources, fun _ _ => architecture_of_dominant sources, fun t paths hnone => ?_⟩
  rw [sourceSummaries_eq_nil hnone]
  rfl

/-- Names of files: two extensions are equally common, whatever case they are written in. -/
def evenNames : List String := ["a.TS", "b.ts", "c.js", "Makefile", "d.JS"]

/-- What two files import: a package comes up twice, and four do in all. -/
def busySources : List SourceSummary :=
  [⟨"b.ts", { imports := [⟨"vue", ["vue"], .default⟩, ⟨"./a", ["a"], .named⟩,
      ⟨"koa", ["k"], .wildcard⟩] }⟩,
   ⟨"c.js", { imports := [⟨"vue", ["h"], .named⟩, ⟨"react", ["r"], .default⟩,
      ⟨"express", ["e"], .default⟩] }⟩]

/-- The first in the alphabet is dominant, and the first three packages are named. -/
theorem heuristics_counted_even :
    (∃ ext, dominantExtension? evenNames = some (ext, filesWith evenNames ext) ∧
      IsDominant evenNames ext) ∧
    dominantExtension? evenNames.reverse = some ("js", 2) ∧
    (∃ notes, notes.Sublist ["Includes tests.", "Includes type definitions."] ∧
      architecture evenNames busySources = " ".intercalate
        (["Primarily .js files (2 of 5)."] ++ packageSentence ["vue", "koa", "react"] ++ notes)) ∧
    externalModules ((([⟨"docs/LICENSE"⟩] : List Path).map (InspectedFile.inspect {})).filterMap
      (·.sourceSummary?)) = [] := by
  obtain ⟨hdominant, hperm, -, -, harchitecture, hfacts⟩ :=
    heuristics_counted evenNames busySources
  have hbest : dominantExtension? evenNames = some ("js", 2) := by decide +kernel
  refine ⟨hdominant ⟨"b.ts", by decide, by decide +kernel⟩, ?_, harchitecture "js" 2 hbest,
    hfacts _ _ (by decide +kernel)⟩
  rw [hperm _ (List.reverse_perm _), hbest]

end Directory

end DirectoryNotes
