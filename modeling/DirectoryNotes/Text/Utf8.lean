/-!
# Reading bytes as text

`decode` reads bytes as UTF-8. Bytes that are no character become the replacement character, one for
each longest run of bytes that a character could begin with.
-/

namespace DirectoryNotes.Text

/-- What stands for bytes that are no character. -/
def replacement : Char := '\ufffd'

/-- Whether a byte may go on a character. -/
def isContinuation (b : UInt8) : Bool := 0x80 ≤ b && b ≤ 0xBF

/-- Whether a byte may come second after the first byte of a character of three bytes. -/
def isSecondOfThree (first second : UInt8) : Bool :=
  if first = 0xE0 then 0xA0 ≤ second && second ≤ 0xBF
  else if first = 0xED then 0x80 ≤ second && second ≤ 0x9F
  else isContinuation second

/-- Whether a byte may come second after the first byte of a character of four bytes. -/
def isSecondOfFour (first second : UInt8) : Bool :=
  if first = 0xF0 then 0x90 ≤ second && second ≤ 0xBF
  else if first = 0xF4 then 0x80 ≤ second && second ≤ 0x8F
  else isContinuation second

/-- The low bits of the bytes of a character put together. -/
def assemble (high : Nat) (continuations : List UInt8) : Char :=
  Char.ofNat (continuations.foldl (fun n b => 64 * n + b.toNat % 64) high)

/-- Reads a character that begins with a byte beyond ASCII: the character and how many bytes after
the first belong to it. -/
def decodeFrom (first : UInt8) (rest : List UInt8) : Char × Nat :=
  if 0xC2 ≤ first ∧ first ≤ 0xDF then
    match rest with
    | b :: _ =>
      if isContinuation b then (assemble (first.toNat % 32) [b], 1) else (replacement, 0)
    | [] => (replacement, 0)
  else if 0xE0 ≤ first ∧ first ≤ 0xEF then
    match rest with
    | b :: c :: _ =>
      if isSecondOfThree first b then
        if isContinuation c then (assemble (first.toNat % 16) [b, c], 2) else (replacement, 1)
      else (replacement, 0)
    | [b] => (replacement, if isSecondOfThree first b then 1 else 0)
    | [] => (replacement, 0)
  else if 0xF0 ≤ first ∧ first ≤ 0xF4 then
    match rest with
    | b :: c :: d :: _ =>
      if isSecondOfFour first b then
        if isContinuation c then
          if isContinuation d then (assemble (first.toNat % 8) [b, c, d], 3) else (replacement, 2)
        else (replacement, 1)
      else (replacement, 0)
    | [b, c] =>
      (replacement, if isSecondOfFour first b then if isContinuation c then 2 else 1 else 0)
    | [b] => (replacement, if isSecondOfFour first b then 1 else 0)
    | [] => (replacement, 0)
  else (replacement, 0)

/-- Reads bytes after passing over some that were read already. -/
def decodeBytes (skip : Nat) : List UInt8 → List Char
  | [] => []
  | b :: rest =>
    if skip > 0 then decodeBytes (skip - 1) rest
    else if b < 0x80 then Char.ofNat b.toNat :: decodeBytes 0 rest
    else
      let (c, taken) := decodeFrom b rest
      c :: decodeBytes taken rest

/-- The text of bytes. -/
def decode (bytes : ByteArray) : String := .ofList (decodeBytes 0 bytes.toList)

example : decodeBytes 0 [0x61, 0xC3, 0xA9, 0xFF, 0xE2, 0x82] = ['a', 'é', '\ufffd', '\ufffd'] := by
  decide

example : decodeBytes 0 [0xC0, 0x80] = ['\ufffd', '\ufffd']
    ∧ decodeBytes 0 [0xED, 0xA0, 0x80] = ['\ufffd', '\ufffd', '\ufffd'] := by
  decide

example : decodeBytes 0 [0xF0, 0x9F, 0x98, 0x80, 0x0A] = ['😀', '\n']
    ∧ decodeBytes 0 [0xF4, 0x90, 0x80] = ['\ufffd', '\ufffd', '\ufffd'] := by
  decide

end DirectoryNotes.Text
