import DirectoryNotes.Proofs.View.Documents

/-!
# The order of the project view

The document of a directory stands among the directories in it, at the place of its name. What comes
first hangs on whether a name stands before or after a point:

* `followsPoint`: whether it does. `precedes_of_followsPoint` and `precedes_of_not_followsPoint` compare
  the document of a directory with one further down;
* `projectView_order`: what that means for the sections and for the limit.
-/

namespace DirectoryNotes.View

open FileTree Text Drawing Document

variable {t : FileTree} {root : Path} {l : Location} {a b more : List String} {n : String}

/-! ## Names and the point -/

/-- Whether a name begins with a character above the point. -/
def followsPoint (n : String) : Bool := n.toList.head?.any ('.' < ·)

lemma bytesOf_fileName_lt (h : followsPoint n = true) : bytesOf fileName < bytesOf n := by
  refine bytesOf_lt_bytesOf ?_
  unfold followsPoint at h
  rw [String.lt_iff_toList_lt]
  cases hn : n.toList with
  | nil => simp [hn] at h
  | cons c cs =>
    have hc : '.' < c := by simpa [hn] using h
    exact List.cons_lt_cons_iff.mpr (.inl hc)

/-- A name that is drawn does not begin with the point itself. -/
lemma bytesOf_lt_fileName (hn : IsPlainName n) (hdrawn : isDrawn n = true)
    (h : followsPoint n = false) : bytesOf n < bytesOf fileName := by
  refine bytesOf_lt_bytesOf ?_
  unfold followsPoint at h
  rw [String.lt_iff_toList_lt]
  obtain ⟨c, cs, hchars⟩ := List.exists_cons_of_ne_nil hn.toList_ne_nil
  rw [hchars] at h ⊢
  have hle : c ≤ '.' := by simpa using h
  have hne : c ≠ '.' := by
    rintro rfl
    simp [isDrawn, FileName.isHidden, hchars] at hdrawn
  exact List.cons_lt_cons_iff.mpr (.inl (lt_of_le_of_ne hle hne))

/-! ## A directory and one below it -/

/-- The order in which the documents of directories are met. -/
def IsMetFirst (a b : List String) : Prop := Precedes (a ++ [fileName]) (b ++ [fileName])

instance : Std.Asymm IsMetFirst := ⟨fun _ _ h h' => asymm (r := Precedes) h h'⟩

lemma precedes_of_followsPoint (a more : List String) (h : followsPoint n = true) :
    IsMetFirst a (a ++ n :: more) := by
  unfold IsMetFirst
  rw [List.append_assoc, precedes_append_left_iff]
  exact .rel (bytesOf_fileName_lt h)

lemma precedes_of_not_followsPoint (a more : List String) (hn : IsPlainName n)
    (hdrawn : isDrawn n = true) (h : followsPoint n = false) : IsMetFirst (a ++ n :: more) a := by
  unfold IsMetFirst
  rw [List.append_assoc, precedes_append_left_iff]
  exact .rel (bytesOf_lt_fileName hn hdrawn h)

/-! ## Ordered lists -/

section Ordered

variable {α : Type} {r : α → α → Prop} [Std.Asymm r] {xs : List α} {x y : α}

/-- Of two members of an ordered list the smaller one comes first. -/
lemma sublist_of_pairwise (h : xs.Pairwise r) (hx : x ∈ xs) (hy : y ∈ xs) (hxy : r x y) :
    [x, y].Sublist xs := by
  obtain ⟨before, after, rfl⟩ := List.append_of_mem hx
  have hlater : y ∈ after := by
    rcases List.mem_append.mp hy with hy | hy
    · exact absurd hxy (asymm ((List.pairwise_append.mp h).2.2 y hy x List.mem_cons_self))
    · rcases List.mem_cons.mp hy with rfl | hy
      · exact absurd hxy (irrefl y)
      · exact hy
  exact ((List.singleton_sublist.mpr hlater).cons_cons x).trans (List.sublist_append_right _ _)

/-- The first elements of an ordered list have with them what is smaller than one of them. -/
lemma mem_take_of_pairwise (h : xs.Pairwise r) {k : ℕ} (hx : x ∈ xs) (hy : y ∈ xs.take k)
    (hxy : r x y) : x ∈ xs.take k := by
  rw [← List.take_append_drop k xs] at h hx
  rcases List.mem_append.mp hx with hx | hx
  · exact hx
  · exact absurd hxy (asymm ((List.pairwise_append.mp h).2.2 y hy x hx))

/-- What is smaller than everything else is the first element of an ordered list. -/
lemma head?_eq_some_iff_of_pairwise (h : xs.Pairwise r) (hx : x ∈ xs) :
    xs.head? = some x ↔ ∀ y ∈ xs, y ≠ x → r x y := by
  cases xs with
  | nil => cases hx
  | cons z xs =>
    rw [List.head?_cons, Option.some.injEq]
    constructor
    · rintro rfl y hy hne
      exact List.rel_of_pairwise_cons h ((List.mem_cons.mp hy).resolve_left hne)
    · intro hfirst
      by_contra hne
      have hlater : x ∈ xs := (List.mem_cons.mp hx).resolve_left (Ne.symm hne)
      exact asymm (hfirst z List.mem_cons_self hne) (List.rel_of_pairwise_cons h hlater)

end Ordered

/-! ## The sections of the view -/

lemma HoldsDocument.isMetFirst (ht : t.WellFormed) (h : HoldsDocument t root l (a ++ n :: more))
    (hpoint : ¬followsPoint n = true) : IsMetFirst (a ++ n :: more) a := by
  have hn : n ∈ a ++ n :: more := by simp
  exact precedes_of_not_followsPoint a more (h.isPlainName ht n hn) (h.drawn n hn)
    (Bool.eq_false_of_not_eq_true hpoint)

/-- Which of the two documents is met first hangs on the name after that of the upper directory. -/
lemma isMetFirst_iff (ht : t.WellFormed) (h : HoldsDocument t root l (a ++ n :: more)) :
    IsMetFirst a (a ++ n :: more) ↔ followsPoint n = true := by
  refine ⟨fun hfirst => ?_, precedes_of_followsPoint a more⟩
  by_contra hpoint
  exact asymm hfirst (h.isMetFirst ht hpoint)

/-- Of the sections of a directory and of one below it, the one whose document is met first stands
first. -/
lemma sublist_documented (ht : t.WellFormed) (hroot : t.find root = .ok (l, .directory)) {k : ℕ}
    (ha : a ∈ (documented t root l).take k)
    (hb : a ++ n :: more ∈ (documented t root l).take k) :
    if followsPoint n then [a, a ++ n :: more].Sublist ((documented t root l).take k)
    else [a ++ n :: more, a].Sublist ((documented t root l).take k) := by
  have hordered : ((documented t root l).take k).Pairwise IsMetFirst :=
    (pairwise_documented ht root l).take
  have hholds := (mem_documented_iff ht hroot).mp (List.mem_of_mem_take hb)
  split
  · next hpoint => exact sublist_of_pairwise hordered ha hb (precedes_of_followsPoint a more hpoint)
  · next hpoint => exact sublist_of_pairwise hordered hb ha (hholds.isMetFirst ht hpoint)

/-- The root comes first if no document is met before its own. -/
lemma head?_documented_eq_nil_iff (ht : t.WellFormed) (hroot : t.find root = .ok (l, .directory))
    (hnil : HoldsDocument t root l []) :
    (documented t root l).head? = some [] ↔
      ∀ n more, HoldsDocument t root l (n :: more) → followsPoint n = true := by
  rw [head?_eq_some_iff_of_pairwise (pairwise_documented ht root l : List.Pairwise IsMetFirst _)
    ((mem_documented_iff ht hroot).mpr hnil)]
  constructor
  · intro hfirst n more hholds
    exact (isMetFirst_iff (a := []) ht hholds).mp
      (hfirst _ ((mem_documented_iff ht hroot).mpr hholds) (List.cons_ne_nil n more))
  · rintro hpoint (_ | ⟨n, more⟩) hmem hne
    · exact absurd rfl hne
    · exact precedes_of_followsPoint [] more (hpoint n more ((mem_documented_iff ht hroot).mp hmem))

end DirectoryNotes.View
