import DirectoryNotes.Source.Analyzer
import Mathlib.Data.List.Basic
import Mathlib.Tactic.Lemma

/-!
# Default exports

A name is exported as the default by a declaration that says so or by a statement of its own. The
statements are read after the declarations, and each looks only at whether its name is exported
already:

* `filter_foldl_addDefault`, `filter_exports`: the entries of one name;
* `countP_isDefault_exports`: how many of them are default exports. It is one for a name that no
  declaration exports; otherwise it is the number of declarations that say so, be it none or many.
-/

namespace DirectoryNotes.Source

variable {content : List Char} {facts : SourceFacts} {exported : List Export} {name : String}

/-! ## The entries of a name -/

/-- The names that statements export as the default, in the order of the text. -/
def defaultNames (content : List Char) : List String :=
  (exportDefaultName.inLines content).map (·.group 1)

lemma any_eq_isEmpty_filter (exported : List Export) (name : String) :
    exported.any (·.name == name) = !(exported.filter (·.name == name)).isEmpty := by
  induction exported with
  | nil => rfl
  | cons e exported ih => cases h : e.name == name <;> simp [h, ih]

/-- A statement adds the first entry of a name and leaves all other names alone. -/
lemma filter_addDefault (added : String) :
    (addDefault facts exported added).filter (·.name == name) =
      if (exported.filter (·.name == name)).isEmpty ∧ added = name then
        [⟨name, facts.kindOf name, true⟩]
      else exported.filter (·.name == name) := by
  -- the check looks at the entries of the added name only
  unfold addDefault
  rw [any_eq_isEmpty_filter]
  by_cases hname : added = name
  · subst hname
    cases h : (exported.filter (·.name == added)).isEmpty
    · simp
    · simp [List.isEmpty_iff.mp h]
  · split <;> simp [hname]

/-- The entries of a name after all statements: those of the declarations if there are any, and
otherwise one default export if a statement exports the name. -/
lemma filter_foldl_addDefault (names : List String) :
    (names.foldl (addDefault facts) exported).filter (·.name == name) =
      if (exported.filter (·.name == name)).isEmpty ∧ name ∈ names then
        [⟨name, facts.kindOf name, true⟩]
      else exported.filter (·.name == name) := by
  induction names generalizing exported with
  | nil => simp
  | cons added names ih =>
    rw [List.foldl_cons, ih, filter_addDefault]
    by_cases hempty : (exported.filter (·.name == name)).isEmpty
    · by_cases hname : added = name
      · simp [hempty, hname]
      · simp [hempty, hname, Ne.symm hname]
    · simp [hempty]

lemma filter_exports (content : List Char) (facts : SourceFacts) (name : String) :
    (exports content facts).filter (·.name == name) =
      if ((declaredExports content).filter (·.name == name)).isEmpty ∧ name ∈ defaultNames content
      then [⟨name, facts.kindOf name, true⟩]
      else (declaredExports content).filter (·.name == name) :=
  filter_foldl_addDefault (defaultNames content)

/-- The name of an export is one that a declaration or a statement exports. -/
lemma name_of_mem_exports {e : Export} (he : e ∈ exports content facts) :
    (∃ m ∈ exportDeclaration.inLines content, m.group 3 = e.name) ∨
      e.name ∈ defaultNames content := by
  have hown : e ∈ (exports content facts).filter (·.name == e.name) :=
    List.mem_filter.mpr ⟨he, beq_self_eq_true _⟩
  rw [filter_exports] at hown
  split at hown
  · next h => exact .inr h.2
  · obtain ⟨m, hm, hname⟩ := List.mem_map.mp (List.mem_of_mem_filter hown)
    exact .inl ⟨m, hm, congrArg Export.name hname⟩

/-- Whatever a declaration exports is among the exports. -/
lemma mem_exports_of_mem_inLines {m : Match} (hm : m ∈ exportDeclaration.inLines content) :
    ∃ e ∈ exports content facts, e.name = m.group 3 := by
  let e : Export := ⟨m.group 3, .ofKeyword (m.group 2), m.has 1⟩
  have hown : e ∈ (declaredExports content).filter (·.name == m.group 3) :=
    List.mem_filter.mpr ⟨List.mem_map_of_mem hm, beq_self_eq_true _⟩
  have hne : ¬((declaredExports content).filter (·.name == m.group 3)).isEmpty = true := by
    rw [List.isEmpty_iff]
    exact List.ne_nil_of_mem hown
  refine ⟨e, ?_, rfl⟩
  have hall := filter_exports content facts (m.group 3)
  rw [if_neg fun h => hne h.1] at hall
  rw [← hall] at hown
  exact List.mem_of_mem_filter hown

/-! ## Default exports of a name -/

/-- The declarations that export a name. -/
def declarationsOf (content : List Char) (name : String) : List Match :=
  (exportDeclaration.inLines content).filter (·.group 3 == name)

/-- How many default exports a name has. -/
def defaultCount (exported : List Export) (name : String) : Nat :=
  exported.countP fun e => e.name == name && e.isDefault

/-- A statement or a declaration exports the name as the default. -/
def IsDefaultName (content : List Char) (name : String) : Prop :=
  name ∈ defaultNames content ∨ ∃ m ∈ declarationsOf content name, m.has 1 = true

instance (content : List Char) (name : String) : Decidable (IsDefaultName content name) :=
  inferInstanceAs (Decidable (_ ∨ _))

lemma defaultCount_eq_countP_filter (exported : List Export) (name : String) :
    defaultCount exported name = (exported.filter (·.name == name)).countP (·.isDefault) := by
  rw [List.countP_filter, defaultCount]
  exact List.countP_congr fun e _ => by simp [and_comm]

lemma filter_declaredExports (content : List Char) (name : String) :
    (declaredExports content).filter (·.name == name) =
      (declarationsOf content name).map fun m => ⟨m.group 3, .ofKeyword (m.group 2), m.has 1⟩ := by
  rw [declaredExports, List.filter_map]
  rfl

/-- A statement counts only for a name that no declaration exports. -/
lemma defaultCount_exports (content : List Char) (facts : SourceFacts) (name : String) :
    defaultCount (exports content facts) name =
      if (declarationsOf content name).isEmpty then if name ∈ defaultNames content then 1 else 0
      else (declarationsOf content name).countP (·.has 1) := by
  rw [defaultCount_eq_countP_filter, filter_exports, filter_declaredExports, List.isEmpty_map]
  cases hdeclared : (declarationsOf content name).isEmpty
  · rw [if_neg (by simp), if_neg (by simp), List.countP_map]
    rfl
  · rw [List.isEmpty_iff.mp hdeclared]
    by_cases hname : name ∈ defaultNames content <;> simp [hname]

/-- Of a name that is exported as the default there is one default export, if and only if no
declaration exports the name or just one of those that do says that it is the default. -/
theorem default_exports_counted {p : Path} (hp : isReadable p = true) (content : String) :
    ∃ facts, analyze? p content = some facts ∧ ∀ name,
      defaultCount facts.exports name =
          (if (declarationsOf content.toList name).isEmpty then
            if name ∈ defaultNames content.toList then 1 else 0
          else (declarationsOf content.toList name).countP (·.has 1)) ∧
        (IsDefaultName content.toList name →
          (defaultCount facts.exports name = 1 ↔ declarationsOf content.toList name = [] ∨
            (declarationsOf content.toList name).countP (·.has 1) = 1)) := by
  refine ⟨_, if_pos hp, fun name => ⟨defaultCount_exports _ _ name, fun hdefault => ?_⟩⟩
  show defaultCount (exports content.toList _) name = 1 ↔ _
  rw [defaultCount_exports]
  cases hdeclared : declarationsOf content.toList name with
  | nil =>
    have hname : name ∈ defaultNames content.toList := by
      rcases hdefault with hname | ⟨m, hm, -⟩
      · exact hname
      · rw [hdeclared] at hm
        cases hm
    simp [hname]
  | cons m rest => simp

/-- A class that its declaration and a statement export, and a function that a statement exports. -/
def twiceExported : String :=
  "export default class Service \x7b\x7d\nexport default Service;\nfunction helper() \x7b\x7d\n"
    ++ "export default helper;\n"

theorem default_exports_counted_twiceExported : isReadable ⟨"service.ts"⟩ = true ∧
    ∃ facts, analyze? ⟨"service.ts"⟩ twiceExported = some facts ∧
      IsDefaultName twiceExported.toList "Service" ∧ defaultCount facts.exports "Service" = 1 ∧
      IsDefaultName twiceExported.toList "helper" ∧ defaultCount facts.exports "helper" = 1 := by
  have hp : isReadable ⟨"service.ts"⟩ = true := by decide
  have hservice : IsDefaultName twiceExported.toList "Service" := by decide +kernel
  have hhelper : IsDefaultName twiceExported.toList "helper" := by decide +kernel
  have hone : (declarationsOf twiceExported.toList "Service").countP (·.has 1) = 1 := by
    decide +kernel
  have hnone : declarationsOf twiceExported.toList "helper" = [] :=
    List.isEmpty_iff.mp (by decide +kernel)
  obtain ⟨facts, hfacts, hcount⟩ := default_exports_counted hp twiceExported
  exact ⟨hp, facts, hfacts, hservice, ((hcount "Service").2 hservice).mpr (.inr hone), hhelper,
    ((hcount "helper").2 hhelper).mpr (.inl hnone)⟩

/-- Overloads say twice that a function is the default. -/
def overloads : String :=
  "export default function f(a: string): void;\nexport default function f(a: any) \x7b\x7d\n"

/-- The declaration of a class keeps out the statement that exports it as the default. -/
def exportedBefore : String := "export class D \x7b\x7d\nexport default D;\n"

/-- A name may have two default exports, and one that a statement exports may have none. -/
theorem not_one_default_export :
    (∃ facts, analyze? ⟨"f.ts"⟩ overloads = some facts ∧ IsDefaultName overloads.toList "f" ∧
      defaultCount facts.exports "f" = 2) ∧
    ∃ facts, analyze? ⟨"f.ts"⟩ exportedBefore = some facts ∧
      IsDefaultName exportedBefore.toList "D" ∧ defaultCount facts.exports "D" = 0 := by
  have hp : isReadable ⟨"f.ts"⟩ = true := by decide
  refine ⟨⟨_, if_pos hp, by decide +kernel, ?_⟩, ⟨_, if_pos hp, by decide +kernel, ?_⟩⟩
  · show defaultCount (declarations overloads.toList).exports "f" = 2
    decide +kernel
  · show defaultCount (declarations exportedBefore.toList).exports "D" = 0
    decide +kernel

end DirectoryNotes.Source
