import DirectoryNotes.Proofs.Text.Bytes
import DirectoryNotes.Text.Utf8

/-!
# Bytes that are a text

Bytes are read as a text whatever they are, with a mark where they are none. Bytes that do come from
a text give the text back:

* `decodeFrom_two`, `decodeFrom_three`, `decodeFrom_four`: a character beyond ASCII, by its length;
* `decodeBytes_utf8EncodeChar`: any character, whatever bytes follow it;
* `decode_toUTF8`: a whole text.
-/

namespace DirectoryNotes.Text

variable {n : Nat} {c : Char} {first : UInt8} {rest : List UInt8}

/-! ## Bytes -/

lemma toNat_byte (hn : n < 256) : (UInt8.ofNat n).toNat = n := by
  rw [UInt8.toNat_ofNat', Nat.mod_eq_of_lt hn]

/-- The byte that goes on a character with the last six bits of a number. -/
def continuation (n : Nat) : UInt8 := .ofNat (n % 64 + 128)

lemma toNat_continuation (n : Nat) : (continuation n).toNat = n % 64 + 128 :=
  toNat_byte (by omega)

lemma isContinuation_continuation (n : Nat) : isContinuation (continuation n) = true := by
  simp only [isContinuation, Bool.and_eq_true, decide_eq_true_eq, UInt8.le_iff_toNat_le,
    toNat_continuation, UInt8.reduceToNat]
  omega

lemma toList_loop (bytes : ByteArray) (i : Nat) (read : List UInt8) :
    ByteArray.toList.loop bytes i read = read.reverse ++ bytes.data.toList.drop i := by
  fun_induction ByteArray.toList.loop bytes i read with
  | case1 i read hi ih =>
    have hlength : i < bytes.data.toList.length := hi
    have hbyte : bytes.get! i = bytes.data.toList[i] := by
      simp [ByteArray.get!, getElem!_pos bytes.data i hi]
    rw [ih, List.drop_eq_getElem_cons hlength, hbyte, List.reverse_cons, List.append_assoc,
      List.singleton_append]
  | case2 i read hi =>
    have hlength : bytes.data.toList.length ≤ i := Nat.le_of_not_lt hi
    rw [List.drop_eq_nil_of_le hlength, List.append_nil]

lemma toList_toUTF8 (s : String) : s.toUTF8.toList = s.toList.flatMap String.utf8EncodeChar := by
  rw [← bytesOf_eq, bytesOf, ByteArray.toList, toList_loop]
  rfl

/-! ## Characters of several bytes -/

lemma decodeFrom_two (hlow : 0x80 ≤ n) (hhigh : n ≤ 0x7FF) :
    decodeFrom (.ofNat (n / 64 % 32 + 192)) (continuation n :: rest) = (Char.ofNat n, 1) := by
  have hfirst : (UInt8.ofNat (n / 64 % 32 + 192)).toNat = n / 64 % 32 + 192 := toNat_byte (by omega)
  have hbits : 64 * ((n / 64 % 32 + 192) % 32) + (n % 64 + 128) % 64 = n := by omega
  rw [decodeFrom, if_pos]
  · simp only [isContinuation_continuation, assemble, List.foldl_cons, List.foldl_nil, hfirst,
      toNat_continuation, hbits, if_true]
  · simp only [UInt8.le_iff_toNat_le, hfirst, UInt8.reduceToNat]
    omega

/-- The code points in the gap below `0xE000` are no characters. -/
lemma decodeFrom_three (hlow : 0x800 ≤ n) (hhigh : n ≤ 0xFFFF) (hvalid : n < 0xD800 ∨ 0xDFFF < n) :
    decodeFrom (.ofNat (n / 4096 % 16 + 224)) (continuation (n / 64) :: continuation n :: rest) =
      (Char.ofNat n, 2) := by
  have hfirst : (UInt8.ofNat (n / 4096 % 16 + 224)).toNat = n / 4096 % 16 + 224 :=
    toNat_byte (by omega)
  generalize UInt8.ofNat (n / 4096 % 16 + 224) = first at hfirst
  have hsecond : isSecondOfThree first (continuation (n / 64)) = true := by
    simp only [isSecondOfThree, isContinuation_continuation, ← UInt8.toNat_inj,
      UInt8.le_iff_toNat_le, toNat_continuation, hfirst, UInt8.reduceToNat]
    split_ifs
    · simp only [Bool.and_eq_true, decide_eq_true_eq]
      omega
    · simp only [Bool.and_eq_true, decide_eq_true_eq]
      omega
    · rfl
  have hbits : 64 * (64 * ((n / 4096 % 16 + 224) % 16) + (n / 64 % 64 + 128) % 64) +
      (n % 64 + 128) % 64 = n := by omega
  rw [decodeFrom, if_neg, if_pos]
  · simp only [hsecond, isContinuation_continuation, assemble, List.foldl_cons, List.foldl_nil,
      hfirst, toNat_continuation, hbits, if_true]
  all_goals
    simp only [UInt8.le_iff_toNat_le, hfirst, UInt8.reduceToNat]
    omega

lemma decodeFrom_four (hlow : 0x10000 ≤ n) (hhigh : n < 0x110000) :
    decodeFrom (.ofNat (n / 262144 % 8 + 240))
      (continuation (n / 4096) :: continuation (n / 64) :: continuation n :: rest) =
        (Char.ofNat n, 3) := by
  have hfirst : (UInt8.ofNat (n / 262144 % 8 + 240)).toNat = n / 262144 % 8 + 240 :=
    toNat_byte (by omega)
  generalize UInt8.ofNat (n / 262144 % 8 + 240) = first at hfirst
  have hsecond : isSecondOfFour first (continuation (n / 4096)) = true := by
    simp only [isSecondOfFour, isContinuation_continuation, ← UInt8.toNat_inj,
      UInt8.le_iff_toNat_le, toNat_continuation, hfirst, UInt8.reduceToNat]
    split_ifs
    · simp only [Bool.and_eq_true, decide_eq_true_eq]
      omega
    · simp only [Bool.and_eq_true, decide_eq_true_eq]
      omega
    · rfl
  have hbits : 64 * (64 * (64 * ((n / 262144 % 8 + 240) % 8) + (n / 4096 % 64 + 128) % 64) +
      (n / 64 % 64 + 128) % 64) + (n % 64 + 128) % 64 = n := by omega
  rw [decodeFrom, if_neg, if_neg, if_pos]
  · simp only [hsecond, isContinuation_continuation, assemble, List.foldl_cons, List.foldl_nil,
      hfirst, toNat_continuation, hbits, if_true]
  all_goals
    simp only [UInt8.le_iff_toNat_le, hfirst, UInt8.reduceToNat]
    omega

/-! ## Texts -/

lemma decodeBytes_passed (taken rest : List UInt8) :
    decodeBytes taken.length (taken ++ rest) = decodeBytes 0 rest := by
  induction taken with
  | nil => rfl
  | cons b taken ih =>
    rw [List.length_cons, List.cons_append, decodeBytes, if_pos (Nat.zero_lt_succ _)]
    exact ih

/-- A character takes as many bytes as are read of it. -/
lemma decodeBytes_cons (taken : List UInt8) (hfirst : 0x80 ≤ first.toNat)
    (h : decodeFrom first (taken ++ rest) = (c, taken.length)) :
    decodeBytes 0 (first :: (taken ++ rest)) = c :: decodeBytes 0 rest := by
  have hlarge : ¬ first < 0x80 := by
    rw [UInt8.lt_iff_toNat_lt]
    exact Nat.not_lt.mpr hfirst
  rw [decodeBytes, if_neg (Nat.lt_irrefl 0), if_neg hlarge, h]
  exact congrArg (c :: ·) (decodeBytes_passed taken rest)

/-- The bytes of a character are read as the character. -/
lemma decodeBytes_utf8EncodeChar (c : Char) (rest : List UInt8) :
    decodeBytes 0 (String.utf8EncodeChar c ++ rest) = c :: decodeBytes 0 rest := by
  have hvalid : c.toNat < 0xD800 ∨ 0xDFFF < c.toNat ∧ c.toNat < 0x110000 := c.valid
  have hchar : Char.ofNat c.toNat = c := Char.ofNat_toNat c
  have hval : c.val.toNat = c.toNat := rfl
  simp only [String.utf8EncodeChar, hval]
  generalize c.toNat = n at hvalid hchar
  split_ifs with hone htwo hthree
  · have hbyte : (UInt8.ofNat n).toNat = n := toNat_byte (by omega)
    have hsmall : UInt8.ofNat n < 0x80 := by
      rw [UInt8.lt_iff_toNat_lt, hbyte]
      exact Nat.lt_succ_of_le hone
    rw [List.singleton_append, decodeBytes, if_neg (Nat.lt_irrefl 0), if_pos hsmall, hbyte, hchar]
  · apply decodeBytes_cons [continuation n]
    · rw [toNat_byte (by omega)]
      omega
    · rw [← hchar]
      exact decodeFrom_two (by omega) htwo
  · apply decodeBytes_cons [continuation (n / 64), continuation n]
    · rw [toNat_byte (by omega)]
      omega
    · rw [← hchar]
      exact decodeFrom_three (by omega) hthree (by omega)
  · apply decodeBytes_cons [continuation (n / 4096), continuation (n / 64), continuation n]
    · rw [toNat_byte (by omega)]
      omega
    · rw [← hchar]
      exact decodeFrom_four (by omega) (by omega)

/-- Reading the bytes of a text gives the text. -/
theorem decode_toUTF8 (s : String) : decode s.toUTF8 = s := by
  have hchars : ∀ cs : List Char, decodeBytes 0 (cs.flatMap String.utf8EncodeChar) = cs := by
    intro cs
    induction cs with
    | nil => rfl
    | cons c cs ih => rw [List.flatMap_cons, decodeBytes_utf8EncodeChar, ih]
  rw [decode, toList_toUTF8, hchars, String.ofList_toList]

end DirectoryNotes.Text
