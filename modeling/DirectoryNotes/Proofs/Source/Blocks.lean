import DirectoryNotes.Proofs.Pattern.Marks
import DirectoryNotes.Source.Analyzer
import Mathlib.Data.List.Infix
import Mathlib.Data.String.Basic

/-!
# Members and their blocks

The members of a class or an interface are sought in its block, from the brace that opens it to the
one that closes it. Which text that is follows from the braces alone:

* `depthAfter`, `IsUnclosed`, `IsBalanced`: the braces of a text;
* `blockBody_append`: how the reader goes on behind what it has read, and `blockBody_balanced`,
  `blockBody_unclosed`: where it ends; `unclosed_or_balanced` says that there is no other case;
* `IsBody`: what is read behind the opening brace, on characters and on bytes;
* `members_of_block`: the members of each class and each interface are those of its block, whatever
  comes after that.
-/

namespace DirectoryNotes.Source

open Pattern

variable {depth i : Nat} {c : Char} {front block body read behind text : List Char} {p : Pattern}
  {m : Match}

/-! ## Braces -/

/-- How many blocks are open behind a text that begins within one. -/
def depthAfter (read : List Char) : Int := 1 + read.count '\x7b' - read.count '\x7d'

/-- The text closes no block that it has not opened. -/
def IsUnclosed (text : List Char) : Prop :=
  ∀ read, read <+: text → read.count '\x7d' ≤ read.count '\x7b'

/-- The text closes all blocks that it opens, and no other. -/
structure IsBalanced (block : List Char) : Prop where
  unclosed : IsUnclosed block
  count_eq : block.count '\x7d' = block.count '\x7b'

/-- One character that leaves a block open is read. -/
lemma blockBody_cons (h : [c].count '\x7d' < depth + [c].count '\x7b') (cs : List Char) :
    blockBody depth (c :: cs) =
      c :: blockBody (depth + [c].count '\x7b' - [c].count '\x7d') cs := by
  rw [blockBody]
  by_cases hopen : c = '\x7b'
  · subst hopen
    rfl
  · by_cases hclose : c = '\x7d'
    · subst hclose
      have hmore : ¬depth ≤ 1 := Nat.not_le.mpr h
      rw [if_neg hopen, if_pos rfl, if_neg hmore]
      rfl
    · have hnone : [c].count '\x7b' = 0 ∧ [c].count '\x7d' = 0 := by simp [hopen, hclose]
      rw [if_neg hopen, if_neg hclose, hnone.1, hnone.2]
      rfl

/-- Behind a text that leaves blocks open, the reader goes on with as many as are left. -/
lemma blockBody_append
    (h : ∀ front, front <+: read → front.count '\x7d' < depth + front.count '\x7b')
    (rest : List Char) :
    blockBody depth (read ++ rest) =
      read ++ blockBody (depth + read.count '\x7b' - read.count '\x7d') rest := by
  induction read generalizing depth with
  | nil => rfl
  | cons c cs ih =>
    have hc : [c].count '\x7d' < depth + [c].count '\x7b' := h [c] ⟨cs, rfl⟩
    have hcs : ∀ front, front <+: cs →
        front.count '\x7d' < depth + [c].count '\x7b' - [c].count '\x7d' + front.count '\x7b' := by
      intro front hfront
      have hmore := h ([c] ++ front) (List.cons_prefix_cons.mpr ⟨rfl, hfront⟩)
      rw [List.count_append, List.count_append] at hmore
      omega
    have hleft : depth + [c].count '\x7b' - [c].count '\x7d' + cs.count '\x7b' - cs.count '\x7d' =
        depth + ([c] ++ cs).count '\x7b' - ([c] ++ cs).count '\x7d' := by
      rw [List.count_append, List.count_append]
      omega
    rw [List.cons_append, blockBody_cons hc, ih hcs, hleft]
    rfl

lemma IsUnclosed.blockBody_append (h : IsUnclosed read) (rest : List Char) :
    blockBody 1 (read ++ rest) =
      read ++ blockBody (1 + read.count '\x7b' - read.count '\x7d') rest :=
  Source.blockBody_append (fun front hfront => by have hfewer := h front hfront; omega) rest

/-- A block that is not closed goes on to the end. -/
lemma blockBody_unclosed (h : IsUnclosed text) : blockBody 1 text = text := by
  have hread := h.blockBody_append []
  rwa [List.append_nil, blockBody, List.append_nil] at hread

/-- A block ends before the first brace that closes more than it has opened. -/
lemma blockBody_balanced (h : IsBalanced block) (rest : List Char) :
    blockBody 1 (block ++ '\x7d' :: rest) = block := by
  have hone : 1 + block.count '\x7b' - block.count '\x7d' = 1 := by
    rw [h.count_eq]
    omega
  have hend : blockBody 1 ('\x7d' :: rest) = [] := rfl
  rw [h.unclosed.blockBody_append, hone, hend, List.append_nil]

/-- Every text is either an open block or a closed one and what comes after. -/
lemma unclosed_or_balanced (text : List Char) : IsUnclosed text ∨
    ∃ block rest, text = block ++ '\x7d' :: rest ∧ IsBalanced block := by
  induction text using List.reverseRecOn with
  | nil => exact .inl fun read hread => by rw [List.prefix_nil.mp hread]; exact Nat.le_refl 0
  | append_singleton cs c ih =>
    rcases ih with hunclosed | ⟨block, rest, rfl, hblock⟩
    · by_cases hmore : (cs ++ [c]).count '\x7d' ≤ (cs ++ [c]).count '\x7b'
      · refine .inl fun read hread => ?_
        rcases List.prefix_concat_iff.mp hread with rfl | hread
        · exact hmore
        · exact hunclosed read hread
      · -- the last character is the brace that closes the block
        have hcs := hunclosed cs (List.prefix_refl cs)
        have hclose : c = '\x7d' := by
          by_contra hother
          have hnone : [c].count '\x7d' = 0 := by simp [hother]
          rw [List.count_append, List.count_append, hnone] at hmore
          omega
        subst hclose
        refine .inr ⟨cs, [], rfl, hunclosed, ?_⟩
        have hone : ['\x7d'].count '\x7d' = 1 ∧ ['\x7d'].count '\x7b' = 0 := by decide
        rw [List.count_append, List.count_append, hone.1, hone.2] at hmore
        omega
    · exact .inr ⟨block, rest ++ [c], by simp, hblock⟩

/-! ## Bodies -/

/-- What is read of the text `behind` that begins with a block, when `front` comes before it: the
block if it is closed, and else all that comes. The depth of the reader is always above zero before
the brace that closes the block, and it is zero there. In bytes the body is cut between characters. -/
structure IsBody (front behind body : List Char) : Prop where
  balanced : ∀ block rest, behind = block ++ '\x7d' :: rest → IsBalanced block → body = block
  unclosed : IsUnclosed behind → body = behind
  depth : ∀ read rest, behind = read ++ rest → read <+: body → ∃ depth : Nat, 0 < depth ∧
    (depth : Int) = depthAfter read ∧ body = read ++ blockBody depth rest
  ends : behind = body ∨
    ∃ rest, behind = body ++ '\x7d' :: rest ∧ depthAfter (body ++ ['\x7d']) = 0
  begins_valid : (String.Pos.Raw.mk (String.utf8Len front)).IsValid (.ofList (front ++ behind))
  ends_valid : (String.Pos.Raw.mk (String.utf8Len front + String.utf8Len body)).IsValid
    (.ofList (front ++ behind))
  extract_eq : String.Pos.Raw.extract (.ofList (front ++ behind)) ⟨String.utf8Len front⟩
    ⟨String.utf8Len front + String.utf8Len body⟩ = .ofList body

/-- A text can be cut behind any part of it. -/
lemma isValid_utf8Len (before after : List Char) :
    (String.Pos.Raw.mk (String.utf8Len before)).IsValid (.ofList (before ++ after)) := by
  rw [String.Pos.Raw.isValid_iff_exists_append]
  refine ⟨.ofList before, .ofList after, String.ofList_append, ?_⟩
  rw [String.rawEndPos, String.utf8ByteSize_ofList]

/-- An unclosed text with which `behind` begins is a body if the reader stops behind it. -/
lemma isBody_of_unclosed (front : List Char) {rest : List Char} (hbehind : behind = body ++ rest)
    (hbody : IsUnclosed body) (hread : blockBody 1 behind = body)
    (hends : behind = body ∨
      ∃ rest, behind = body ++ '\x7d' :: rest ∧ depthAfter (body ++ ['\x7d']) = 0) :
    IsBody front behind body where
  balanced block rest' hblock hbalanced := by
    rw [← hread, hblock, blockBody_balanced hbalanced]
  unclosed hunclosed := by rw [← hread, blockBody_unclosed hunclosed]
  depth read rest' hsplit hprefix := by
    have hfewer := hbody read hprefix
    have hunclosed : IsUnclosed read := fun front hfront => hbody front (hfront.trans hprefix)
    refine ⟨1 + read.count '\x7b' - read.count '\x7d', by omega, ?_, ?_⟩
    · rw [depthAfter]
      omega
    · rw [← hread, hsplit, hunclosed.blockBody_append]
  ends := hends
  begins_valid := isValid_utf8Len front behind
  ends_valid := by
    have hvalid := isValid_utf8Len (front ++ body) rest
    rwa [String.utf8Len_append, List.append_assoc, ← hbehind] at hvalid
  extract_eq := by
    rw [hbehind, ← List.append_assoc]
    exact String.extract_of_valid front body rest

/-- Whatever comes behind an opening brace, a body is read there. -/
lemma isBody_blockBody (front behind : List Char) : IsBody front behind (blockBody 1 behind) := by
  rcases unclosed_or_balanced behind with hunclosed | ⟨block, rest, rfl, hblock⟩
  · rw [blockBody_unclosed hunclosed]
    exact isBody_of_unclosed front (List.append_nil behind).symm hunclosed
      (blockBody_unclosed hunclosed) (.inl rfl)
  · have hdepth : depthAfter (block ++ ['\x7d']) = 0 := by
      have hone : ['\x7d'].count '\x7d' = 1 ∧ ['\x7d'].count '\x7b' = 0 := by decide
      rw [depthAfter, List.count_append, List.count_append, hone.1, hone.2, hblock.count_eq]
      omega
    rw [blockBody_balanced hblock]
    exact isBody_of_unclosed front rfl hblock.unclosed (blockBody_balanced hblock rest)
      (.inr ⟨rest, rfl, hdepth⟩)

/-! ## Declarations -/

lemma classDeclaration_endsIn : classDeclaration.EndsIn '\x7b' := ⟨_, rfl, by decide, by decide⟩

lemma interfaceDeclaration_endsIn : interfaceDeclaration.EndsIn '\x7b' :=
  ⟨_, rfl, by decide, by decide⟩

/-- A match that ends before a text is found there whatever the text is, and reads its body. -/
lemma exists_body (hp : p.EndsIn '\x7b') (h : (p.inLines (front ++ behind))[i]? = some m)
    (hstop : m.stop.index = front.length) (other : List Char) :
    ∃ m', (p.inLines (front ++ other))[i]? = some m' ∧ m'.groups = m.groups ∧
      IsBody front other (bodyOf m') := by
  obtain ⟨m', hm', hgroups, hstop'⟩ := exists_getElem?_inLines hp h hstop other
  refine ⟨m', hm', hgroups, ?_⟩
  rw [bodyOf, hstop']
  exact isBody_blockBody front other

/-- The members of a class or an interface are those of its block: the declaration before the block
is found whatever comes behind its opening brace, and nothing but the block is searched. -/
theorem members_of_block {file : Path} (hfile : isReadable file = true) (front behind : List Char) :
    (∀ (i : Nat) (m : Match), (classDeclaration.inLines (front ++ behind))[i]? = some m →
      m.stop.index = front.length → ∀ other, ∃ facts m',
        analyze? file (.ofList (front ++ other)) = some facts ∧
          (classDeclaration.inLines (front ++ other))[i]? = some m' ∧
          IsBody front other (bodyOf m') ∧
          facts.classes[i]? = some ⟨m.group 2, methods (bodyOf m'), m.has 1⟩) ∧
    (∀ (i : Nat) (m : Match), (interfaceDeclaration.inLines (front ++ behind))[i]? = some m →
      m.stop.index = front.length → ∀ other, ∃ facts m',
        analyze? file (.ofList (front ++ other)) = some facts ∧
          (interfaceDeclaration.inLines (front ++ other))[i]? = some m' ∧
          IsBody front other (bodyOf m') ∧
          facts.interfaces[i]? = some ⟨m.group 2, properties (bodyOf m'), m.has 1⟩) := by
  have hfacts : ∀ text, ∃ facts, analyze? file (.ofList text) = some facts ∧
      facts.classes = classes text ∧ facts.interfaces = interfaces text := by
    intro text
    refine ⟨_, if_pos hfile, ?_, ?_⟩
    · exact congrArg classes String.toList_ofList
    · exact congrArg interfaces String.toList_ofList
  refine ⟨?_, ?_⟩
  · intro i m hm hstop other
    obtain ⟨m', hm', hgroups, hbody⟩ := exists_body classDeclaration_endsIn hm hstop other
    obtain ⟨facts, hanalyze, hclasses, -⟩ := hfacts (front ++ other)
    refine ⟨facts, m', hanalyze, hm', hbody, ?_⟩
    rw [hclasses, classes, List.getElem?_map, hm']
    simp only [Option.map_some, Match.group, Match.has, Match.group?, hgroups]
  · intro i m hm hstop other
    obtain ⟨m', hm', hgroups, hbody⟩ := exists_body interfaceDeclaration_endsIn hm hstop other
    obtain ⟨facts, hanalyze, -, hinterfaces⟩ := hfacts (front ++ other)
    refine ⟨facts, m', hanalyze, hm', hbody, ?_⟩
    rw [hinterfaces, interfaces, List.getElem?_map, hm']
    simp only [Option.map_some, Match.group, Match.has, Match.group?, hgroups]

/-- The text up to the opening brace of an interface. -/
def namedFront : List Char := "interface Named \x7b".toList

/-- The block of the interface. -/
def namedBlock : List Char := "\n  id: string;\n".toList

/-- The text up to the opening brace of a class behind the interface. -/
def storeFront : List Char :=
  namedFront ++ (namedBlock ++ '\x7d' :: "\nexport class Store \x7b".toList)

/-- The block of the class, in which a method has a block of its own. -/
def storeBlock : List Char := "\n  load(id) \x7b\n    return id;\n  \x7d\n".toList

lemma isBalanced_of_inits (h : ∀ read ∈ block.inits, read.count '\x7d' ≤ read.count '\x7b')
    (hcount : block.count '\x7d' = block.count '\x7b') : IsBalanced block :=
  ⟨fun read hread => h read ((List.mem_inits read block).mpr hread), hcount⟩

theorem members_of_block_store : isReadable ⟨"store.ts"⟩ = true ∧
    IsBalanced namedBlock ∧ IsBalanced storeBlock ∧
    (∀ rest, ∃ facts,
      analyze? ⟨"store.ts"⟩ (.ofList (namedFront ++ (namedBlock ++ '\x7d' :: rest))) = some facts ∧
        facts.interfaces[0]? = some ⟨"Named", ["id"], false⟩) ∧
    ∀ rest, ∃ facts,
      analyze? ⟨"store.ts"⟩ (.ofList (storeFront ++ (storeBlock ++ '\x7d' :: rest))) = some facts ∧
        facts.classes[0]? = some ⟨"Store", ["load"], true⟩ := by
  have hfile : isReadable ⟨"store.ts"⟩ = true := by decide
  have hnamed : IsBalanced namedBlock := isBalanced_of_inits (by decide) (by decide)
  have hstore : IsBalanced storeBlock := isBalanced_of_inits (by decide) (by decide)
  have hinterface : (interfaceDeclaration.inLines (namedFront ++ []))[0]? = some
      ⟨⟨0, namedFront⟩, ⟨17, []⟩, [(2, "Named".toList)]⟩ := by rfl
  have hclass : (classDeclaration.inLines (storeFront ++ []))[0]? = some
      ⟨⟨34, "export class Store \x7b".toList⟩, ⟨54, []⟩,
        [(2, "Store".toList), (1, "export ".toList)]⟩ := by rfl
  refine ⟨hfile, hnamed, hstore, fun rest => ?_, fun rest => ?_⟩
  · obtain ⟨facts, m', hanalyze, -, hbody, hmembers⟩ :=
      (members_of_block hfile namedFront []).2 0 _ hinterface rfl (namedBlock ++ '\x7d' :: rest)
    refine ⟨facts, hanalyze, ?_⟩
    rw [hmembers, hbody.balanced namedBlock rest rfl hnamed]
    rfl
  · obtain ⟨facts, m', hanalyze, -, hbody, hmembers⟩ :=
      (members_of_block hfile storeFront []).1 0 _ hclass rfl (storeBlock ++ '\x7d' :: rest)
    refine ⟨facts, hanalyze, ?_⟩
    rw [hmembers, hbody.balanced storeBlock rest rfl hstore]
    rfl

end DirectoryNotes.Source
