import Keyset.Json.Fault
import Keyset.Json.Reading

/-!
# Decoding

A decoder takes a reading to a value, or to the first fault in the order of the text.
-/

namespace Keyset.Json

/-- A function from readings to values of a type. -/
abbrev Decoder (α : Type) : Type :=
  Reading → Except Fault α

/-- The fault of a value that is of no use where it stands: what cannot be read is malformed, else its type is wrong. -/
def Reading.typeFault : Reading → Fault
  | .broken | .text none | .number .excessive => .malformed
  | _ => .invalidType

namespace Decoder

/-- A truth value. -/
def bool : Decoder Bool
  | .bool value => .ok value
  | other => .error other.typeFault

/-- A text without unpaired surrogates. -/
def text : Decoder String
  | .text (some value) => .ok value
  | other => .error other.typeFault

/-- An integer between two bounds. -/
def integer (least greatest : Int) : Decoder Int
  | .number (.integer n) => if least ≤ n ∧ n ≤ greatest then .ok n else .error .invalidValue
  | other => .error other.typeFault

/-- A signed 64-bit word. -/
def int64 : Decoder Int64 :=
  fun value => (integer (-0x8000000000000000) 0x7FFFFFFFFFFFFFFF value).map Int64.ofInt

/-- An unsigned 32-bit word. -/
def uint32 : Decoder UInt32 :=
  fun value => (integer 0 0xFFFFFFFF value).map fun n => UInt32.ofNat n.toNat

/-- An unsigned 64-bit word. -/
def uint64 : Decoder UInt64 :=
  fun value => (integer 0 0xFFFFFFFFFFFFFFFF value).map fun n => UInt64.ofNat n.toNat

/-- A value that may be missing; null says that it is. -/
def optional (decode : Decoder α) : Decoder (Option α)
  | .null => .ok none
  | value => (decode value).map some

/-- The items of an array, up to the first fault. -/
def items (decode : Decoder α) : List Reading → Except Fault (List α)
  | [] => .ok []
  | item :: rest => do
    let value ← decode item
    let values ← items decode rest
    return value :: values

/-- An array of values. -/
def list (decode : Decoder α) : Decoder (List α)
  | .array readings ending => do
    let values ← items decode readings
    if ending = .closed then return values else throw .malformed
  | other => .error other.typeFault

/-- One of some named values, by its name. -/
def named (options : List (String × α)) (name : String) : Except Fault α :=
  match options.lookup name with
  | some value => .ok value
  | none => .error (.unknownVariant name (options.map Prod.fst))

/-- One of some named values: its name, or an object with the name as its only key and null as the value. -/
def choice (options : List (String × α)) : Decoder α
  | .text (some name) => named options name
  | .object ((some name, content) :: rest) ending => do
    let value ← named options name
    match content with
    | .null => if rest.isEmpty ∧ ending = .closed then return value else throw .malformed
    | other => throw other.typeFault
  | _ => .error .malformed

/-- Decodes characters, which are or are not a `whole` text. A fault inside the document comes before the fault that
the text is no document. -/
def decodeChars (decode : Decoder α) (cs : List Char) (whole : Bool) : Except Fault α := do
  let (reading, complete) := Reading.ofChars cs whole
  let value ← decode reading
  if complete then return value else throw .malformed

/-- Decodes a text. -/
def decodeText (decode : Decoder α) (text : String) : Except Fault α :=
  decodeChars decode text.toList true

end Decoder

end Keyset.Json
