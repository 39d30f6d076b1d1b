import DirectoryNotes.Text
import Mathlib.Data.Finset.Card
import Mathlib.Tactic.Lemma

/-!
# Rosters

A roster of a list names each of its items once, in the order in which they come up first:

* `IsRoster`: what a roster is;
* `IsRoster.concat`: what becomes of a roster when one more item comes up;
* `isRoster_firstOccurrences`: keeping first occurrences makes a roster;
* `IsRoster.length_eq`: a roster is as long as there are different items.
-/

namespace DirectoryNotes.Text

variable {α : Type} [DecidableEq α] {roster xs : List α} {x : α}

/-- Each item of a list once, and of two items the one first that comes up first. -/
structure IsRoster (roster xs : List α) : Prop where
  nodup : roster.Nodup
  mem_iff : ∀ x, x ∈ roster ↔ x ∈ xs
  order : roster.Pairwise fun x y => xs.idxOf x < xs.idxOf y

lemma isRoster_nil : IsRoster ([] : List α) [] :=
  ⟨List.nodup_nil, fun _ => Iff.rfl, List.Pairwise.nil⟩

/-- Items that have come up keep their places when more come. -/
lemma IsRoster.order_append (h : IsRoster roster xs) (ys : List α) :
    roster.Pairwise fun x y => (xs ++ ys).idxOf x < (xs ++ ys).idxOf y := by
  refine h.order.imp_of_mem fun {x y} hx hy hlt => ?_
  rw [List.idxOf_append_of_mem ((h.mem_iff x).mp hx), List.idxOf_append_of_mem ((h.mem_iff y).mp hy)]
  exact hlt

/-- An item that comes up for the first time comes last in the roster, and any other changes
nothing. -/
lemma IsRoster.concat (h : IsRoster roster xs) (x : α) :
    IsRoster (if roster.contains x then roster else roster ++ [x]) (xs ++ [x]) := by
  split
  case isTrue hx =>
    have hmem : x ∈ xs := (h.mem_iff x).mp (List.contains_iff_mem.mp hx)
    refine ⟨h.nodup, fun y => ?_, h.order_append [x]⟩
    rw [List.mem_append, List.mem_singleton, h.mem_iff y]
    constructor
    · exact .inl
    · rintro (hy | rfl)
      · exact hy
      · exact hmem
  case isFalse hx =>
    have hroster : x ∉ roster := fun hmem => hx (List.contains_iff_mem.mpr hmem)
    have hxs : x ∉ xs := fun hmem => hroster ((h.mem_iff x).mpr hmem)
    refine ⟨?_, fun y => ?_, ?_⟩
    · exact List.nodup_append.mpr ⟨h.nodup, List.nodup_singleton x, fun y hy z hz => by
        rw [List.mem_singleton.mp hz]
        rintro rfl
        exact hroster hy⟩
    · rw [List.mem_append, List.mem_append, h.mem_iff y]
    · refine List.pairwise_append.mpr ⟨h.order_append [x], List.pairwise_singleton _ _, ?_⟩
      intro y hy z hz
      rw [List.mem_singleton.mp hz, List.idxOf_append_of_mem ((h.mem_iff y).mp hy),
        List.idxOf_append_of_notMem hxs]
      have hlt := List.idxOf_lt_length_of_mem ((h.mem_iff y).mp hy)
      omega

/-- The first occurrences are a roster. -/
theorem isRoster_firstOccurrences (xs : List α) : IsRoster (firstOccurrences xs) xs := by
  -- the list grows at its end, as the reader goes through it
  induction xs using List.reverseRecOn with
  | nil => exact isRoster_nil
  | append_singleton xs x ih =>
    have hstep : firstOccurrences (xs ++ [x]) =
        if (firstOccurrences xs).contains x then firstOccurrences xs
        else firstOccurrences xs ++ [x] := by
      unfold firstOccurrences
      rw [List.foldl_append, List.foldl_cons, List.foldl_nil]
    rw [hstep]
    exact ih.concat x

/-- A roster has as many items as there are different ones. -/
lemma IsRoster.length_eq (h : IsRoster roster xs) : roster.length = xs.toFinset.card := by
  have hsame : roster.toFinset = xs.toFinset := by
    ext x
    rw [List.mem_toFinset, List.mem_toFinset, h.mem_iff x]
  rw [← hsame, List.toFinset_card_of_nodup h.nodup]

end DirectoryNotes.Text
