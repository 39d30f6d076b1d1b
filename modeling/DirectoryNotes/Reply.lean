import DirectoryNotes.Error

/-!
# Replies

What comes back when someone outside is asked: an answer, a failure, or nothing in time. Whoever asks
can do without the answer.
-/

namespace DirectoryNotes

/-- What comes back for a question. -/
inductive Reply (α : Type) where
  | answer (value : α)
  | failure (reason : Failure)
  /-- Nothing came before the time was up. -/
  | silence

namespace Reply

/-- The answer, if there is one. -/
def value? : Reply α → Option α
  | .answer value => some value
  | _ => none

/-- The reply that a result makes. -/
def ofExcept : Except Failure α → Reply α
  | .ok value => .answer value
  | .error reason => .failure reason

end Reply

end DirectoryNotes
