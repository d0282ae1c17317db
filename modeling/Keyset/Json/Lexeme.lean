import Keyset.Json.Numeral

/-!
# Json lexemes

The lexer reads one character at a time and gives out a lexeme as soon as it is complete: a number with the first
character behind it, anything else with its last character. What it gives out for the beginning of a text is
therefore the beginning of what it gives out for the whole text (`Lexer.run_append`).
-/

namespace Keyset.Json

/-- The lexemes of the format; a text with an unpaired surrogate has no value. -/
inductive Lexeme where
  | openArray
  | closeArray
  | openObject
  | closeObject
  | comma
  | colon
  | null
  | bool (value : Bool)
  | number (value : Numeral)
  | text (value : Option String)
  deriving DecidableEq

namespace Lexer

/-- How far a number has been read. -/
inductive NumberPhase where
  | minus
  | zero
  | whole
  | point
  | fraction
  | mark
  | sign
  | exponent
  deriving DecidableEq

/-- Whether a number may end here. -/
def NumberPhase.isComplete : NumberPhase → Bool
  | .zero | .whole | .fraction | .exponent => true
  | .minus | .point | .mark | .sign => false

/-- The phase after one more character of a number, if the character continues it. -/
def NumberPhase.next? (phase : NumberPhase) (c : Char) : Option NumberPhase :=
  match phase with
  | .minus => if c = '0' then some .zero else if c.isDigit then some .whole else none
  | .zero => if c = '.' then some .point else if c = 'e' ∨ c = 'E' then some .mark else none
  | .whole =>
    if c.isDigit then some .whole else if c = '.' then some .point
    else if c = 'e' ∨ c = 'E' then some .mark else none
  | .point => if c.isDigit then some .fraction else none
  | .fraction => if c.isDigit then some .fraction else if c = 'e' ∨ c = 'E' then some .mark else none
  | .mark => if c = '+' ∨ c = '-' then some .sign else if c.isDigit then some .exponent else none
  | .sign | .exponent => if c.isDigit then some .exponent else none

/-- What has been read of a text, in reverse: its characters, none once a surrogate stood alone, and a high surrogate
that waits for a low one. -/
structure Written where
  chars : Option (List Char)
  high : Option Nat
  deriving DecidableEq

/-- One more character; it leaves a waiting surrogate alone. -/
def Written.put (w : Written) (c : Char) : Written :=
  ⟨if w.high.isNone then w.chars.map (c :: ·) else none, none⟩

/-- One more 16-bit unit: a high surrogate waits, a low one completes the pair, any other unit is a character. -/
def Written.putUnit (w : Written) (unit : Nat) : Written :=
  if 0xD800 ≤ unit ∧ unit < 0xDC00 then ⟨if w.high.isNone then w.chars else none, some unit⟩
  else if 0xDC00 ≤ unit ∧ unit < 0xE000 then
    match w.high with
    | some high => ⟨w.chars.map (Char.ofNat (0x10000 + (high - 0xD800) * 0x400 + (unit - 0xDC00)) :: ·), none⟩
    | none => ⟨none, none⟩
  else w.put (Char.ofNat unit)

/-- The text that ends here. -/
def Written.finish (w : Written) : Option String :=
  if w.high.isNone then w.chars.map fun cs => String.ofList cs.reverse else none

/-- How far the lexer has read. -/
inductive State where
  | between
  | word (rest : List Char) (value : Lexeme)
  | number (phase : NumberPhase) (reversed : List Char)
  | text (written : Written)
  | escape (written : Written)
  | hex (written : Written) (left value : Nat)
  | broken
  deriving DecidableEq

/-- The character that a one-letter escape stands for. -/
def unescape? : Char → Option Char
  | '"' => some '"'
  | '\\' => some '\\'
  | '/' => some '/'
  | 'b' => some '\x08'
  | 'f' => some '\x0c'
  | 'n' => some '\n'
  | 'r' => some '\r'
  | 't' => some '\t'
  | _ => none

/-- The value of a hexadecimal digit in either case. -/
def hexDigit? (c : Char) : Option Nat :=
  if c.isDigit then some (c.toNat - 48)
  else if 'a' ≤ c ∧ c ≤ 'f' then some (c.toNat - 87)
  else if 'A' ≤ c ∧ c ≤ 'F' then some (c.toNat - 55)
  else none

/-- Reads a character between lexemes. -/
def start (c : Char) : List Lexeme × State :=
  match c with
  | ' ' | '\t' | '\n' | '\r' => ([], .between)
  | '[' => ([.openArray], .between)
  | ']' => ([.closeArray], .between)
  | '\x7b' => ([.openObject], .between)
  | '\x7d' => ([.closeObject], .between)
  | ',' => ([.comma], .between)
  | ':' => ([.colon], .between)
  | '"' => ([], .text ⟨some [], none⟩)
  | 'n' => ([], .word ['u', 'l', 'l'] .null)
  | 't' => ([], .word ['r', 'u', 'e'] (.bool true))
  | 'f' => ([], .word ['a', 'l', 's', 'e'] (.bool false))
  | '-' => ([], .number .minus ['-'])
  | '0' => ([], .number .zero ['0'])
  | _ => if c.isDigit then ([], .number .whole [c]) else ([], .broken)

/-- The lexemes that a number gives out when a character behind it does not continue it. -/
def endNumber (phase : NumberPhase) (reversed : List Char) : List Lexeme :=
  if phase.isComplete then [.number (.ofChars reversed.reverse)] else []

/-- Reads one character: the lexemes that it completes, and the next state. A zero takes no digit behind it. -/
def step : State → Char → List Lexeme × State
  | .between, c => start c
  | .word [] _, _ => ([], .broken)
  | .word [last] value, c => if c = last then ([value], .between) else ([], .broken)
  | .word (next :: rest) value, c => if c = next then ([], .word rest value) else ([], .broken)
  | .number phase reversed, c =>
    match phase.next? c with
    | some phase => ([], .number phase (c :: reversed))
    | none =>
      if phase.isComplete = false ∨ (phase = .zero ∧ c.isDigit) then ([], .broken)
      else
        let (lexemes, state) := start c
        (endNumber phase reversed ++ lexemes, state)
  | .text written, c =>
    if c = '"' then ([.text written.finish], .between)
    else if c = '\\' then ([], .escape written)
    else if c.toNat < 0x20 then ([], .broken)
    else ([], .text (written.put c))
  | .escape written, c =>
    if c = 'u' then ([], .hex written 4 0)
    else match unescape? c with
      | some c => ([], .text (written.put c))
      | none => ([], .broken)
  | .hex written left value, c =>
    match hexDigit? c with
    | some digit =>
      if 1 < left then ([], .hex written (left - 1) (16 * value + digit))
      else ([], .text (written.putUnit (16 * value + digit)))
    | none => ([], .broken)
  | .broken, _ => ([], .broken)

/-- The lexemes that are complete at the end of a text, and whether the text may end here. -/
def finish : State → List Lexeme × Bool
  | .between => ([], true)
  | .number phase reversed => (endNumber phase reversed, phase.isComplete)
  | .word .. | .text .. | .escape .. | .hex .. | .broken => ([], false)

/-- Reads characters from a state: the lexemes that they complete and the state that they lead to. -/
def run : State → List Char → List Lexeme × State
  | s, [] => ([], s)
  | s, c :: cs =>
    let (front, s) := step s c
    let (rest, s) := run s cs
    (front ++ rest, s)

/-- Reading two texts one after the other is reading them together. -/
theorem run_append (s : State) (cs ds : List Char) :
    run s (cs ++ ds) = ((run s cs).1 ++ (run (run s cs).2 ds).1, (run (run s cs).2 ds).2) := by
  induction cs generalizing s with
  | nil => simp [run]
  | cons c cs ih => simp [run, ih]

end Lexer

end Keyset.Json
