import Keyset.Json.Lexeme

/-!
# Readings of Json documents

A reading is what a text tells about a value, up to the point where the text stops being a document: values that were
not reached are `broken`, and every container around that point is cut. So the faults of a text can be reported in the
order in which they stand in it. `Reading.ofChars` builds the reading of a text with a stack of open containers.
-/

namespace Keyset.Json

/-- How a container ends. -/
inductive Ending where
  /-- By its closing bracket. -/
  | closed
  /-- Where the text stops being a document. -/
  | cut
  deriving DecidableEq

/-- What is read of a value. A text or key with an unpaired surrogate has no value. -/
inductive Reading where
  | null
  | bool (value : Bool)
  | number (value : Numeral)
  | text (value : Option String)
  | array (items : List Reading) (ending : Ending)
  | object (members : List (Option String × Reading)) (ending : Ending)
  | broken

/-- A member of an object: its key and what is read of its value. -/
abbrev Member : Type :=
  Option String × Reading

namespace Builder

/-- An open container with what it holds so far, in reverse; an object may have a key that waits for its value. -/
inductive Frame where
  | array (items : List Reading)
  | object (members : List Member) (key : Option (Option String))

/-- What must come next. A document is done with its root; anything behind that is surplus. -/
inductive Stage where
  | value
  | valueOrClose
  | key
  | keyOrClose
  | colon
  | commaOrClose
  | done (root : Reading)
  | surplus (root : Reading)
  | halted

/-- The containers that are open, innermost first, and what must come next. -/
structure State where
  stack : List Frame
  stage : Stage

/-- A text starts with a value. -/
def State.initial : State :=
  ⟨[], .value⟩

/-- A complete value, in the innermost container or as the root. -/
def put (value : Reading) : List Frame → State
  | [] => ⟨[], .done value⟩
  | .array items :: stack => ⟨.array (value :: items) :: stack, .commaOrClose⟩
  | .object members (some key) :: stack => ⟨.object ((key, value) :: members) none :: stack, .commaOrClose⟩
  | .object members none :: stack => ⟨.object members none :: stack, .halted⟩

/-- A lexeme where a value must come. -/
def startValue (stack : List Frame) : Lexeme → State
  | .null => put .null stack
  | .bool value => put (.bool value) stack
  | .number value => put (.number value) stack
  | .text value => put (.text value) stack
  | .openArray => ⟨.array [] :: stack, .valueOrClose⟩
  | .openObject => ⟨.object [] none :: stack, .keyOrClose⟩
  | .closeArray | .closeObject | .comma | .colon => ⟨stack, .halted⟩

/-- A lexeme where a key must come. -/
def startKey (stack : List Frame) : Lexeme → State
  | .text key =>
    match stack with
    | .object members none :: stack => ⟨.object members (some key) :: stack, .colon⟩
    | stack => ⟨stack, .halted⟩
  | _ => ⟨stack, .halted⟩

/-- Closes the innermost container, if the bracket is of its kind. -/
def close (stack : List Frame) : Lexeme → State
  | .closeArray =>
    match stack with
    | .array items :: stack => put (.array items.reverse .closed) stack
    | stack => ⟨stack, .halted⟩
  | .closeObject =>
    match stack with
    | .object members none :: stack => put (.object members.reverse .closed) stack
    | stack => ⟨stack, .halted⟩
  | _ => ⟨stack, .halted⟩

/-- Takes one lexeme; behind one that may not stand where it does nothing is read. -/
def step (s : State) (lexeme : Lexeme) : State :=
  match s.stage with
  | .value => startValue s.stack lexeme
  | .valueOrClose => if lexeme = .closeArray then close s.stack lexeme else startValue s.stack lexeme
  | .key => startKey s.stack lexeme
  | .keyOrClose => if lexeme = .closeObject then close s.stack lexeme else startKey s.stack lexeme
  | .colon => ⟨s.stack, if lexeme = .colon then .value else .halted⟩
  | .commaOrClose =>
    if lexeme = .comma then
      match s.stack with
      | .array _ :: _ => ⟨s.stack, .value⟩
      | .object .. :: _ => ⟨s.stack, .key⟩
      | [] => ⟨[], .halted⟩
    else close s.stack lexeme
  | .done root | .surplus root => ⟨s.stack, .surplus root⟩
  | .halted => s

/-- What is read of a container that is cut, the last thing in it being `value`. -/
def Frame.cut (value : Reading) : Frame → Reading
  | .array items => .array (value :: items).reverse .cut
  | .object members (some key) => .object ((key, value) :: members).reverse .cut
  | .object members none => .object members.reverse .cut

/-- What is read of the root when the text ends inside the containers of a stack. -/
def cutAll (value : Reading) (stack : List Frame) : Reading :=
  stack.foldl (fun value frame => frame.cut value) value

/-- The reading when no lexeme follows, and whether it is that of a whole document. -/
def finish (s : State) : Reading × Bool :=
  match s.stage, s.stack with
  | .done root, _ => (root, true)
  | .surplus root, _ => (root, false)
  | _, stack => (cutAll .broken stack, false)

end Builder

/-- The reading of a text, and whether the text is a document. Characters that are not the `whole` text are followed
by something that continues nothing. -/
def Reading.ofChars (cs : List Char) (whole : Bool) : Reading × Bool :=
  let (lexemes, state) := Lexer.run .between cs
  let (last, ended) := Lexer.finish state
  let (reading, done) := Builder.finish ((lexemes ++ last).foldl Builder.step .initial)
  (reading, done && ended && whole)

end Keyset.Json
