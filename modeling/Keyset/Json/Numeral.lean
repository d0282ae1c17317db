import Keyset.Number.Rounding

/-!
# Json numerals

What a reader keeps of a number: a 64-bit integer is kept, of any other number only whether it is too large for
binary64. The test for that gathers the digits into a 64-bit significand and a power of ten, rounds both and
multiplies them.
-/

namespace Keyset.Json

/-- A number in a document. -/
inductive Numeral where
  /-- Digits alone, in the range of a signed or an unsigned 64-bit word; `-0` is none. -/
  | integer (n : Int)
  /-- Any other number that binary64 can hold. -/
  | real
  /-- A number beyond the largest binary64 number. -/
  | excessive
  deriving DecidableEq

namespace Numeral

/-- What 64 bits cannot hold. -/
def wordBound : Nat :=
  0x10000000000000000

/-- Takes digits behind `n` as long as the number fits into 64 bits; gives the number and the digits left over. -/
def gather (n : Nat) : List Char → Nat × List Char
  | [] => (n, [])
  | c :: cs => if 10 * n + (c.toNat - 48) < wordBound then gather (10 * n + (c.toNat - 48)) cs else (n, c :: cs)

/-- The magnitude nearest to the product of two finite magnitudes. -/
def product (a b : Nat) : Nat :=
  let scale := Number.scale a + Number.scale b
  Number.nearest (Number.significand a * Number.significand b * Nat.pow 2 scale.toNat) (Nat.pow 2 (-scale).toNat)

/-- Whether `significand * 10 ^ exponent`, each factor rounded by itself, is too large. No power is computed that
is too large in itself. -/
def isExcessive (significand : Nat) (exponent : Int) : Bool :=
  if significand = 0 ∨ exponent < 0 then false
  else if 308 < exponent then true
  else product (Number.nearest significand 1) (Number.nearest (Nat.pow 10 exponent.toNat) 1) = Number.infinityMagnitude

/-- A number with the given whole digits, digits behind the point and exponent. -/
def ofParts (whole fraction : List Char) (exponent : Int) : Numeral :=
  let (n, wholeLeft) := gather 0 whole
  let (n, fractionLeft) := gather n fraction
  let places : Int := fraction.length - fractionLeft.length
  if isExcessive n (wholeLeft.length - places + exponent) then excessive else real

/-- An exponent without its letter. -/
def exponentOf : List Char → Int
  | '-' :: ds => -(Decimal.value ds : Int)
  | '+' :: ds => Decimal.value ds
  | ds => Decimal.value ds

/-- Digits without a sign, as a number with or without one. -/
def ofUnsigned (negative : Bool) (cs : List Char) : Numeral :=
  let whole := cs.takeWhile Char.isDigit
  match cs.dropWhile Char.isDigit with
  | [] =>
    let (n, left) := gather 0 whole
    if left = [] ∧ negative = false then integer n
    else if left = [] ∧ 0 < n ∧ 2 * n ≤ wordBound then integer (-n)
    else ofParts whole [] 0
  | '.' :: rest => ofParts whole (rest.takeWhile Char.isDigit) (exponentOf ((rest.dropWhile Char.isDigit).drop 1))
  | _ :: exponent => ofParts whole [] (exponentOf exponent)

/-- The numeral that a text written by the grammar of numbers stands for. -/
def ofChars : List Char → Numeral
  | '-' :: cs => ofUnsigned true cs
  | cs => ofUnsigned false cs

end Numeral

end Keyset.Json
