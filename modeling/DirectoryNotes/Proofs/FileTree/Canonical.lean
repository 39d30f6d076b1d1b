import DirectoryNotes.Proofs.FileTree.Following

/-!
# Paths without links

The path of a location is its names after a slash. A changed file is often given so, while the root
of the project is written as the user did:

* `pathOf_append`: the path of a location below another continues its path;
* `of_relativeTo?_pathOf`: what may come in front when such a path is taken from a root;
* `location_of_parts`: a root of names leads to the location of these names, if no link is on the way.
-/

namespace DirectoryNotes

open FileTree

/-! ## Paths of locations -/

namespace FileTree

variable {l names : Location}

lemma pathOf_eq_follow (hn : ∀ n ∈ l, IsPlainName n) : pathOf l = Path.follow ⟨"/"⟩ l := by
  by_cases hl : l = []
  · subst hl
    decide
  · rw [← Path.join_ofNames _ hl hn, Path.join, Path.isAbsolute_ofNames hn]
    rfl

/-- The path of a location below another continues its path. -/
lemma pathOf_append (hn : ∀ n ∈ l ++ names, IsPlainName n) :
    pathOf (l ++ names) = (pathOf l).follow names := by
  rw [pathOf_eq_follow hn, pathOf_eq_follow fun n hmem => hn n (List.mem_append_left _ hmem),
    Path.follow_append]

lemma opened_pathOf (hne : l ≠ []) (hn : ∀ n ∈ l, IsPlainName n) :
    (pathOf l).opened = (.root, l.map String.toList) := by
  have htext : (pathOf l).text.toList = '/' :: (Path.ofNames l).text.toList := by
    simp [pathOf, Path.ofNames]
  rw [Path.opened_of_root htext, Path.ofNames_toList, Text.pieces_intercalate]
  · simpa using hne
  · intro x hx
    obtain ⟨m, hm, rfl⟩ := List.mem_map.mp hx
    exact (hn m hm).no_slash

end FileTree

/-! ## What comes in front -/

namespace Path

variable {names : List String} {root : Path}

/-- Parts that come first in names are the first of the names. -/
lemma of_dropParts_names {parts : List PathPart} {left : List (List Char)}
    (hn : ∀ n ∈ names, IsPlainName n) (h : dropParts parts (names.map String.toList) = some left) :
    ∃ front back, names = front ++ back ∧ parts = front.map .name ∧
      left = back.map String.toList := by
  induction parts generalizing names with
  | nil =>
    rw [dropParts] at h
    cases h
    exact ⟨[], names, rfl, rfl, rfl⟩
  | cons part parts ih =>
    cases names with
    | nil =>
      rw [List.map_nil, dropParts] at h
      cases h
    | cons n ns =>
      rw [List.map_cons, dropParts, (hn n (by simp)).ofSegment?_eq] at h
      dsimp only at h
      split at h
      · next heq =>
        obtain ⟨front, back, rfl, rfl, rfl⟩ :=
          ih (fun m hm => hn m (List.mem_cons_of_mem _ hm)) h
        exact ⟨n :: front, back, rfl, by simp [heq], rfl⟩
      · cases h

lemma ofSegment?_ne_root (segment : List Char) : PathPart.ofSegment? segment ≠ some .root := by
  unfold PathPart.ofSegment?
  split
  · simp
  · split <;> simp

/-- A path whose first part is the leading slash begins with it. -/
lemma exists_slash_of_parts {p : Path} {parts : List PathPart} (h : p.parts = .root :: parts) :
    ∃ rest, p.text.toList = '/' :: rest := by
  by_cases hslash : p.text.toList.head? = some '/'
  · exact List.head?_eq_some_iff.mp hslash
  · obtain ⟨first, rest, hpieces⟩ :=
      List.exists_cons_of_ne_nil (Text.pieces_ne_nil '/' p.text.toList)
    unfold Path.parts at h
    rw [opened_of_other hslash hpieces] at h
    split at h
    · cases h
    · have hmem : PathPart.root ∈ (first :: rest).filterMap PathPart.ofSegment? := by
        have hparts : (first :: rest).filterMap PathPart.ofSegment? = .root :: parts := h
        simp [hparts]
      obtain ⟨segment, -, hsegment⟩ := List.mem_filterMap.mp hmem
      exact absurd hsegment (ofSegment?_ne_root segment)

/-- A root that comes in front of the path of a location is made of the first of its names. -/
lemma of_relativeTo?_pathOf {l : Location} {rest : Path} (hroot : root.text ≠ "") (hne : l ≠ [])
    (hn : ∀ n ∈ l, IsPlainName n) (h : (pathOf l).relativeTo? root = some rest) :
    ∃ front back, l = front ++ back ∧ root.parts = .root :: front.map .name ∧
      rest = ofNames back := by
  unfold relativeTo? at h
  rw [opened_pathOf hne hn] at h
  dsimp only at h
  -- the path begins with a slash, so the root has to begin with it too
  split at h
  · next hparts => exact absurd hparts (parts_ne_nil hroot)
  · next heq _ => cases heq
  · next parts hparts _ =>
    rw [relativeTo?.rest] at h
    obtain ⟨left, hleft, rfl⟩ := Option.map_eq_some_iff.mp h
    obtain ⟨front, back, rfl, rfl, rfl⟩ := of_dropParts_names hn hleft
    have hback : ∀ n ∈ back, IsPlainName n := fun n hmem => hn n (List.mem_append_right _ hmem)
    have hnone : ∀ segment ∈ ([] : List (List Char)), isIdle segment := by simp
    have hdrop := dropWhile_isIdle_append hnone hback
    rw [List.nil_append] at hdrop
    exact ⟨front, back, rfl, hparts, by rw [hdrop, dropIdleEnd_names hback, ofOpened_plain]⟩
  · next heq => cases heq
  · cases h

end Path

namespace FileTree

variable {t : FileTree} {l here names : Location} {links : Nat} {root : Path}

lemma ofList_of_ofSegment?_none {segment : List Char} (h : PathPart.ofSegment? segment = none) :
    String.ofList segment = "" ∨ String.ofList segment = "." := by
  unfold PathPart.ofSegment? at h
  split at h
  · next hidle =>
    rcases hidle with rfl | rfl
    · exact .inl rfl
    · exact .inr rfl
  · split at h <;> cases h

lemma ofList_of_ofSegment?_name {segment : List Char} {name : String}
    (h : PathPart.ofSegment? segment = some (.name name)) :
    String.ofList segment = name ∧ ¬(name = "" ∨ name = ".") ∧ name ≠ ".." := by
  unfold PathPart.ofSegment? at h
  split at h
  · cases h
  · next hidle =>
    split at h
    · cases h
    · next hup =>
      cases h
      refine ⟨rfl, fun hname => hidle ?_, fun hname => hup ?_⟩
      · exact hname.imp (fun heq => by simpa using congrArg String.toList heq)
          fun heq => by simpa using congrArg String.toList heq
      · simpa using congrArg String.toList hname

/-- Segments that stand for names lead to the location of the names, if no link is on the way. -/
lemma walk_of_names {segments : List (List Char)}
    (hsegments : segments.filterMap PathPart.ofSegment? = names.map .name)
    (hlinks : ∀ front, front <+: names → ∀ target, t.entryAt? (here ++ front) ≠ some (.link target))
    (hwalk : t.walk links here (segments.map String.ofList) = .ok l) : l = here ++ names := by
  induction segments generalizing names here with
  | nil =>
    obtain rfl : names = [] := by simpa using hsegments.symm
    simpa [walk_nil] using hwalk.symm
  | cons segment rest ih =>
    have hdir := walk_cons_ok hwalk
    cases hs : PathPart.ofSegment? segment with
    | none =>
      -- neither a name nor a step
      rw [List.filterMap_cons_none hs] at hsegments
      rw [List.map_cons, walk_of_idle hdir (ofList_of_ofSegment?_none hs)] at hwalk
      exact ih hsegments hlinks hwalk
    | some part =>
      rw [List.filterMap_cons_some hs] at hsegments
      cases names with
      | nil => cases hsegments
      | cons n ns =>
        rw [List.map_cons, List.cons.injEq] at hsegments
        obtain ⟨rfl, hsegments⟩ := hsegments
        obtain ⟨rfl, hidle, hup⟩ := ofList_of_ofSegment?_name hs
        have hlink := hlinks [String.ofList segment] (List.prefix_append [String.ofList segment] ns)
        rw [List.map_cons] at hwalk
        by_cases hlong : (String.ofList segment).utf8ByteSize > nameLimit
        · rw [walk_of_tooLong hdir hidle hup hlong] at hwalk
          cases hwalk
        · rw [walk_of_entry hdir hidle hup hlong hlink] at hwalk
          have hlinks' : ∀ front, front <+: ns → ∀ target,
              t.entryAt? (here ++ [String.ofList segment] ++ front) ≠ some (.link target) := by
            intro front hfront target
            rw [List.append_assoc]
            exact hlinks _ ((List.prefix_append_right_inj [String.ofList segment]).mpr hfront) target
          simpa using ih hsegments hlinks' hwalk

/-- A root of names leads to the location of these names, if no link is on the way. -/
lemma location_of_parts (hroot : t.LeadsInto root l)
    (hparts : root.parts = .root :: names.map .name)
    (hlinks : ∀ front, front <+: names → ∀ target, t.entryAt? front ≠ some (.link target)) :
    l = names := by
  obtain ⟨rest, htext⟩ := Path.exists_slash_of_parts hparts
  have hopened := Path.opened_of_root htext
  unfold Path.parts at hparts
  rw [hopened, Path.Opening.parts, List.singleton_append, List.cons.injEq] at hparts
  have hway := hroot.way
  simp only [startOf, segments, htext, List.head?_cons, if_true, List.drop_one,
    List.tail_cons] at hway
  simpa using walk_of_names hparts.2 (by simpa using hlinks) hway

end FileTree

end DirectoryNotes
