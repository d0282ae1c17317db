/-!
# UTF-8

Text as bytes and back. The decoder is a machine that reads one byte at a time, so what it gives for the beginning
of a list of bytes is the beginning of what it gives for the whole list (`run_append`), also when the rest is not
well-formed.
-/

namespace Keyset.Utf8

/-- The bytes of a text. -/
def encode (cs : List Char) : List UInt8 :=
  cs.flatMap String.utf8EncodeChar

/-- Where the decoder stands between two bytes: between characters, inside one that still owes `left` continuation
bytes and may not be less than `least`, or behind an ill-formed byte. -/
inductive State where
  | between
  | within (left least value : Nat)
  | broken
  deriving DecidableEq

/-- The character with a code point, if it is not less than `least` and there is one. -/
def scalar? (least code : Nat) : Option Char :=
  if code.isValidChar ∧ least ≤ code then some (Char.ofNat code) else none

/-- Reads one byte: the character that it completes, if any, and the next state. -/
def step : State → UInt8 → Option Char × State
  | .between, b =>
    let b := b.toNat
    if b < 0x80 then (some (Char.ofNat b), .between)
    else if b < 0xC0 then (none, .broken)
    else if b < 0xE0 then (none, .within 1 0x80 (b - 0xC0))
    else if b < 0xF0 then (none, .within 2 0x800 (b - 0xE0))
    else if b < 0xF8 then (none, .within 3 0x10000 (b - 0xF0))
    else (none, .broken)
  | .within left least value, b =>
    let code := 64 * value + (b.toNat - 0x80)
    if b.toNat < 0x80 ∨ 0xC0 ≤ b.toNat then (none, .broken)
    else if 1 < left then (none, .within (left - 1) least code)
    else match scalar? least code with
      | some c => (some c, .between)
      | none => (none, .broken)
  | .broken, _ => (none, .broken)

/-- Reads bytes from a state: the characters that they complete and the state that they lead to. -/
def run : State → List UInt8 → List Char × State
  | s, [] => ([], s)
  | s, b :: bs =>
    let (c, s) := step s b
    let (cs, s) := run s bs
    (c.toList ++ cs, s)

/-- The characters before the first ill-formed byte, and whether the bytes are well-formed to their end. -/
def decode (bs : List UInt8) : List Char × Bool :=
  let (cs, s) := run .between bs
  (cs, s = .between)

/-- Reading two lists of bytes one after the other is reading them together. -/
theorem run_append (s : State) (bs cs : List UInt8) :
    run s (bs ++ cs) = ((run s bs).1 ++ (run (run s bs).2 cs).1, (run (run s bs).2 cs).2) := by
  induction bs generalizing s with
  | nil => simp [run]
  | cons b bs ih => simp [run, ih]

end Keyset.Utf8
