/-!
# URL-safe base64 without padding

Bytes as text over 64 symbols, three bytes as four symbols (`URL_SAFE_NO_PAD`). `decode` accepts what `encode` writes and nothing else:
a last group with unused bits that are set is a fault, and so is every byte outside the alphabet, padding included.
-/

namespace Keyset.Base64

/-- The symbol of a number below 64: capitals, small letters, digits, hyphen, low line. -/
def symbol (n : Nat) : Char :=
  if n < 26 then Char.ofNat (n + 65)
  else if n < 52 then Char.ofNat (n + 71)
  else if n < 62 then Char.ofNat (n - 4)
  else if n = 62 then '-'
  else '_'

/-- The number of a symbol, given as a byte. -/
def sextet? (b : UInt8) : Option Nat :=
  let b := b.toNat
  if 65 ≤ b ∧ b ≤ 90 then some (b - 65)
  else if 97 ≤ b ∧ b ≤ 122 then some (b - 71)
  else if 48 ≤ b ∧ b ≤ 57 then some (b + 4)
  else if b = 45 then some 62
  else if b = 95 then some 63
  else none

/-- The text of a list of bytes. -/
def encode : List UInt8 → List Char
  | [] => []
  | [a] => [symbol (a.toNat / 4), symbol (a.toNat % 4 * 16)]
  | [a, b] => [symbol (a.toNat / 4), symbol (a.toNat % 4 * 16 + b.toNat / 16), symbol (b.toNat % 16 * 4)]
  | a :: b :: c :: rest =>
    symbol (a.toNat / 4) :: symbol (a.toNat % 4 * 16 + b.toNat / 16) ::
      symbol (b.toNat % 16 * 4 + c.toNat / 64) :: symbol (c.toNat % 64) :: encode rest

/-- Why bytes are no base64 text; offsets count bytes from the start. -/
inductive Fault where
  /-- A byte that may not stand at its place. -/
  | symbol (byte : UInt8) (offset : Nat)
  /-- A last symbol with unused bits that are set. -/
  | lastSymbol (byte : UInt8) (offset : Nat)
  /-- A last group of one symbol. -/
  | length (bytes : Nat)
  | padding
  deriving DecidableEq

/-- The wording of a fault. -/
def Fault.message : Fault → String
  | .symbol byte offset => s!"Invalid symbol {byte.toNat}, offset {offset}."
  | .lastSymbol byte offset => s!"Invalid last symbol {byte.toNat}, offset {offset}."
  | .length bytes => s!"Invalid input length: {bytes}"
  | .padding => "Invalid padding"

/-- The number of the symbol at an offset. -/
def sextetAt (offset : Nat) (b : UInt8) : Except Fault Nat :=
  match sextet? b with
  | some n => .ok n
  | none => .error (.symbol b offset)

/-- The numbers of the symbols from an offset on; the first byte that is no symbol is the fault. -/
def sextets : (offset : Nat) → List UInt8 → Except Fault (List Nat)
  | _, [] => .ok []
  | offset, b :: bs => do
    let n ← sextetAt offset b
    let ns ← sextets (offset + 1) bs
    return n :: ns

/-- The bytes of a whole group. -/
def bytesOfGroup (a b c d : Nat) : List UInt8 :=
  [UInt8.ofNat (a * 4 + b / 16), UInt8.ofNat (b % 16 * 16 + c / 4), UInt8.ofNat (c % 4 * 64 + d)]

/-- The padding byte, an equals sign. -/
def pad : UInt8 :=
  61

/-- The bytes of a last group of two to four symbols; `last` is its last byte and `offset` the place of that. -/
def bytesOfLast (length offset : Nat) (last : UInt8) : List Nat → Except Fault (List UInt8)
  | [a, b] => if b % 16 = 0 then .ok [UInt8.ofNat (a * 4 + b / 16)] else .error (.lastSymbol last offset)
  | [a, b, c] =>
    if c % 4 = 0 then .ok [UInt8.ofNat (a * 4 + b / 16), UInt8.ofNat (b % 16 * 16 + c / 4)]
    else .error (.lastSymbol last offset)
  | [a, b, c, d] => .ok (bytesOfGroup a b c d)
  | _ => .error (.length length)

/-- Reads the last group, one to four bytes from `offset`. Padding is never accepted: out of place it is a symbol
fault, else a padding fault, so the faults before it are found first. -/
def decodeLast (length offset : Nat) (bs : List UInt8) : Except Fault (List UInt8) := do
  let symbols := bs.takeWhile (· ≠ pad)
  let padding := bs.dropWhile (· ≠ pad)
  let ns ← sextets offset symbols
  if padding ≠ [] ∧ (symbols.length < 2 ∨ padding.any (· ≠ pad)) then .error (.symbol pad (offset + symbols.length))
  else if symbols.length < 2 then .error (.length length)
  else if padding ≠ [] then .error .padding
  else bytesOfLast length (offset + symbols.length - 1) (bs.getLastD pad) ns

/-- Reads the groups from `offset` on; a group is the last one when no byte follows it. -/
def decodeFrom (length : Nat) : (offset : Nat) → List UInt8 → Except Fault (List UInt8)
  | offset, a :: b :: c :: d :: e :: rest => do
    let a ← sextetAt offset a
    let b ← sextetAt (offset + 1) b
    let c ← sextetAt (offset + 2) c
    let d ← sextetAt (offset + 3) d
    let bytes ← decodeFrom length (offset + 4) (e :: rest)
    return bytesOfGroup a b c d ++ bytes
  | offset, last => decodeLast length offset last

/-- The bytes that a text, given by its own bytes, stands for. A single byte behind the last whole group is looked
at first. -/
def decode (bs : List UInt8) : Except Fault (List UInt8) :=
  let last := bs.getLastD pad
  if bs.length % 4 = 1 ∧ last ≠ pad ∧ sextet? last = none then .error (.symbol last (bs.length - 1))
  else if bs = [] then .ok []
  else decodeFrom bs.length 0 bs

end Keyset.Base64
