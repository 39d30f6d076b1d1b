import Mathlib.Data.List.Flatten
import Mathlib.Data.String.Basic
import Mathlib.Tactic.Lemma

/-!
# Texts as bytes

Texts are read and compared character by character, and the file system does both byte by byte. The
order is the same, and so are the places of characters that are one byte:

* `utf8EncodeChar_append_lt`: the bytes of a greater character come later, whatever follows;
* `bytesOf_lt_bytesOf`: so do the bytes of a greater text;
* `pairwise_bytesOf_mergeSort`: names that are sorted come in the order of their bytes;
* `mem_of_mem_bytesOf`: a byte below 0x80 is a character of the text.
-/

namespace DirectoryNotes.Text

/-- The bytes of a text. -/
def bytesOf (s : String) : List UInt8 := s.toUTF8.data.toList

lemma bytesOf_eq (s : String) : bytesOf s = s.toList.flatMap String.utf8EncodeChar := by
  have hbytes : s.toUTF8 = s.toList.utf8Encode := by
    rw [String.toUTF8_eq_toByteArray, String.utf8Encode_toList]
  rw [bytesOf, hbytes, List.utf8Encode, List.data_toByteArray]

/-- The bytes of a greater character come later in the order of bytes, whatever follows them. -/
lemma utf8EncodeChar_append_lt {c d : Char} (h : c < d) (as bs : List UInt8) :
    String.utf8EncodeChar c ++ as < String.utf8EncodeChar d ++ bs := by
  have hlt : c.val.toNat < d.val.toNat := h
  have hmax : d.val.toNat < 0x110000 := by
    have hvalid := d.valid
    unfold UInt32.isValidChar Nat.isValidChar at hvalid
    omega
  generalize hm : c.val.toNat = m at hlt
  generalize hn : d.val.toNat = n at hlt hmax
  -- the digits of base 64, each from the one before
  have hdigits : ∀ k : Nat, k / 4096 = k / 64 / 64 ∧ k / 262144 = k / 64 / 64 / 64 := by omega
  have hsmall : ∀ k : Nat, (k % 64 + 128) % 2 ^ 8 = k % 64 + 128 := by omega
  have hfirst : ∀ k : Nat, (k % 32 + 192) % 2 ^ 8 = k % 32 + 192 ∧
      (k % 16 + 224) % 2 ^ 8 = k % 16 + 224 ∧ (k % 8 + 240) % 2 ^ 8 = k % 8 + 240 := by omega
  simp only [String.utf8EncodeChar, hm, hn]
  split_ifs <;>
    simp only [List.cons_append, List.nil_append, List.cons_lt_cons_iff, UInt8.lt_iff_toNat_lt,
      ← UInt8.toNat_inj, UInt8.toNat_ofNat', hsmall, hfirst, hdigits] <;>
    omega

/-- The bytes of a greater text come later in the order of bytes. -/
theorem bytesOf_lt_bytesOf {a b : String} (h : a < b) : bytesOf a < bytesOf b := by
  rw [bytesOf_eq, bytesOf_eq]
  rw [String.lt_iff_toList_lt] at h
  generalize a.toList = as at h
  generalize b.toList = bs at h
  induction as generalizing bs with
  | nil =>
    cases bs with
    | nil => exact absurd h (List.lt_irrefl _)
    | cons d ds =>
      have hne : String.utf8EncodeChar d ++ ds.flatMap String.utf8EncodeChar ≠ [] := by
        simp [String.utf8EncodeChar_ne_nil]
      obtain ⟨x, rest, hx⟩ := List.exists_cons_of_ne_nil hne
      rw [List.flatMap_nil, List.flatMap_cons, hx]
      exact List.nil_lt_cons x rest
  | cons c cs ih =>
    cases bs with
    | nil => exact absurd h (List.not_lt_nil _)
    | cons d ds =>
      rw [List.flatMap_cons, List.flatMap_cons]
      rcases List.cons_lt_cons_iff.mp h with hlt | ⟨rfl, hlt⟩
      · exact utf8EncodeChar_append_lt hlt _ _
      · exact List.append_left_lt (ih ds hlt)

/-! ## Sorted names -/

lemma pairwise_mergeSort (names : List String) :
    (names.mergeSort (· ≤ ·)).Pairwise (· ≤ ·) := by
  have hsorted : (names.mergeSort (· ≤ ·)).Pairwise fun m n => decide (m ≤ n) = true := by
    refine List.pairwise_mergeSort ?_ ?_ names
    · intro a b c hab hbc
      exact decide_eq_true (String.le_trans (of_decide_eq_true hab) (of_decide_eq_true hbc))
    · intro a b
      simpa using String.le_total a b
  exact hsorted.imp of_decide_eq_true

/-- Names that are sorted come in the order of their bytes. -/
lemma pairwise_bytesOf_mergeSort {names : List String} (h : names.Nodup) :
    (names.mergeSort (· ≤ ·)).Pairwise fun m n => bytesOf m < bytesOf n := by
  have hnodup : (names.mergeSort (· ≤ ·)).Nodup := (List.mergeSort_perm names _).nodup_iff.mpr h
  refine ((pairwise_mergeSort names).and hnodup).imp ?_
  intro m n hmn
  exact bytesOf_lt_bytesOf (lt_of_le_of_ne hmn.1 hmn.2)

/-! ## Places in a text -/

lemma bytesOf_append (s t : String) : bytesOf (s ++ t) = bytesOf s ++ bytesOf t := by
  rw [bytesOf_eq, bytesOf_eq, bytesOf_eq, String.toList_append, List.flatMap_append]

lemma length_bytesOf (s : String) : (bytesOf s).length = s.utf8ByteSize := rfl

lemma utf8ByteSize_le_of_sublist {s t : String} (h : s.toList.Sublist t.toList) :
    s.utf8ByteSize ≤ t.utf8ByteSize := by
  rw [← length_bytesOf, ← length_bytesOf, bytesOf_eq, bytesOf_eq]
  exact (h.flatMap _).length_le

lemma utf8ByteSize_replicate (c : Char) (n : Nat) :
    (String.ofList (List.replicate n c)).utf8ByteSize = n * c.utf8Size := by
  rw [String.utf8ByteSize_ofList]
  induction n with
  | zero => simp
  | succ n ih => rw [List.replicate_succ, String.utf8Len_cons, ih, Nat.succ_mul, Nat.add_comm]

/-- A byte below 0x80 is the whole of one character and no part of any other. -/
lemma eq_of_mem_utf8EncodeChar {c : Char} {b : UInt8} (hb : b < 0x80)
    (h : b ∈ String.utf8EncodeChar c) : c.toNat = b.toNat := by
  have hsmall : b.toNat < 128 := hb
  have hmax : c.val.toNat < 0x110000 := by
    have hvalid := c.valid
    unfold UInt32.isValidChar Nat.isValidChar at hvalid
    omega
  unfold Char.toNat
  simp only [String.utf8EncodeChar] at h
  split_ifs at h <;>
    simp only [List.mem_cons, List.not_mem_nil, or_false, ← UInt8.toNat_inj,
      UInt8.toNat_ofNat'] at h <;>
    omega

/-- A byte below 0x80 is a character of the text. -/
lemma mem_of_mem_bytesOf {c : Char} {b : UInt8} {s : String} (hb : b < 0x80)
    (hc : c.toNat = b.toNat) (h : b ∈ bytesOf s) : c ∈ s.toList := by
  rw [bytesOf_eq] at h
  obtain ⟨d, hd, hmem⟩ := List.mem_flatMap.mp h
  have hcode : d.toNat = c.toNat := (eq_of_mem_utf8EncodeChar hb hmem).trans hc.symm
  rwa [← Char.toNat_inj.mp hcode]

end DirectoryNotes.Text
