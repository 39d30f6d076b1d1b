import DirectoryNotes.Json.Token

/-!
# Reading JSON

The tokens of a text are put together with a stack of the lists and objects that are open. Each token
takes one step, so a text of any length and depth is read; what is accepted is JSON and nothing
beyond it, in particular no comma before a closing bracket and nothing after the value.
-/

namespace DirectoryNotes.Json

/-- The fields of an object while it is read, in reverse. A name that stands for no text is none. -/
abbrev OpenFields := List (Option String × Json)

/-- The object with these fields. -/
def OpenFields.close (reversed : OpenFields) : Json :=
  match reversed.reverse.mapM fun (name?, v) => name?.map (·, v) with
  | some fields => .object fields
  | none => .broken

/-- The name of a field that a token stands for. -/
def fieldName? : Token → Option (Option String)
  | .value (.text name) => some (some name)
  | .value .broken => some none
  | _ => none

/-- A list or an object that is open while one of its values is read. What it has already is kept in
reverse. -/
inductive Frame where
  | list (items : List Json)
  | object (fields : OpenFields) (name? : Option String)

/-- What the reader looks at next. -/
inductive Stage where
  /-- A value. -/
  | value
  /-- The first item of a list, or its end. -/
  | itemOrEnd
  /-- The first field of an object, or its end. -/
  | fieldOrEnd
  /-- The next field of an object. -/
  | field (fields : OpenFields)
  /-- The colon after the name of a field. -/
  | colon (fields : OpenFields) (name? : Option String)
  /-- What follows a value. -/
  | after (v : Json)

/-- The reader in the middle of a text. -/
structure ReadState where
  stage : Stage
  frames : List Frame

namespace ReadState

/-- A value begins. -/
def begin? (frames : List Frame) : Token → Option ReadState
  | .value v => some ⟨.after v, frames⟩
  | .openList => some ⟨.itemOrEnd, frames⟩
  | .openObject => some ⟨.fieldOrEnd, frames⟩
  | _ => none

/-- The state after a token. -/
def step (state : ReadState) (token : Token) : Option ReadState :=
  match state.stage, state.frames, token with
  | .value, frames, token => begin? frames token
  | .itemOrEnd, frames, .closeList => some ⟨.after (.list []), frames⟩
  | .itemOrEnd, frames, token => begin? (.list [] :: frames) token
  | .fieldOrEnd, frames, .closeObject => some ⟨.after (.object []), frames⟩
  | .fieldOrEnd, frames, token => (fieldName? token).map fun name? => ⟨.colon [] name?, frames⟩
  | .field fields, frames, token =>
    (fieldName? token).map fun name? => ⟨.colon fields name?, frames⟩
  | .colon fields name?, frames, .colon => some ⟨.value, .object fields name? :: frames⟩
  | .after v, .list items :: frames, .comma => some ⟨.value, .list (v :: items) :: frames⟩
  | .after v, .list items :: frames, .closeList =>
    some ⟨.after (.list (v :: items).reverse), frames⟩
  | .after v, .object fields name? :: frames, .comma =>
    some ⟨.field ((name?, v) :: fields), frames⟩
  | .after v, .object fields name? :: frames, .closeObject =>
    some ⟨.after (OpenFields.close ((name?, v) :: fields)), frames⟩
  | _, _, _ => none

/-- The value, if nothing is open any more. -/
def result? (state : ReadState) : Option Json :=
  match state.stage, state.frames with
  | .after v, [] => some v
  | _, _ => none

/-- The value that tokens make up from a state on. -/
def run : ReadState → List Token → Option Json
  | state, [] => state.result?
  | state, token :: rest => do run (← state.step token) rest

end ReadState

/-- The value that a text is written as. -/
def read? (s : String) : Option Json := do
  ReadState.run ⟨.value, []⟩ (← tokens? s.toList)

end DirectoryNotes.Json
