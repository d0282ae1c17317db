import Keyset.Number.Basic
import Keyset.Text.Lexical

/-!
# Rounding to binary64

The nearest magnitude to a quotient of natural numbers, ties to the even one, in exact arithmetic. A finite
magnitude is a significand times a power of two (`significand`, `scale`), and the power that a quotient needs
comes from the floor of its binary logarithm.
-/

namespace Keyset.Number

/-- The significand of a finite magnitude, with the leading bit of a normal one made explicit. -/
def significand (magnitude : Nat) : Nat :=
  if magnitude < fractionBound then magnitude else fractionBound + magnitude % fractionBound

/-- The power of two by which the significand of a finite magnitude is multiplied. -/
def scale (magnitude : Nat) : Int :=
  if magnitude < fractionBound then -1074 else (magnitude / fractionBound : Nat) - 1075

/-- A finite magnitude as a quotient of natural numbers. -/
def quotient (magnitude : Nat) : Nat × Nat :=
  (significand magnitude * Nat.pow 2 (scale magnitude).toNat, Nat.pow 2 (-scale magnitude).toNat)

/-- The nearest integer to `num / den`; a half goes to the even neighbour. -/
def roundHalfEven (num den : Nat) : Nat :=
  let q := num / den
  let r := num % den
  if 2 * r < den then q
  else if den < 2 * r then q + 1
  else q + q % 2

/-- The floor of the binary logarithm of a positive quotient. -/
def log2Quotient (num den : Nat) : Int :=
  let e : Int := num.log2 - den.log2
  if num * Nat.pow 2 (-e).toNat < den * Nat.pow 2 e.toNat then e - 1 else e

/-- The magnitude nearest to `num / den`, infinity when the quotient is too large to be finite. -/
def nearest (num den : Nat) : Nat :=
  if num = 0 then 0
  else
    let q : Int := max (-1074) (log2Quotient num den - 52)
    let m := roundHalfEven (num * Nat.pow 2 (-q).toNat) (den * Nat.pow 2 q.toNat)
    min ((q + 1074).toNat * fractionBound + m) infinityMagnitude

/-- The magnitude nearest to `significand * 10 ^ exponent`. Exponents that put the number beyond the finite
magnitudes, or below half of the least one, are decided by the count of digits. -/
def nearestDecimal (significand : Nat) (exponent : Int) : Nat :=
  let places : Int := (Decimal.digits significand).length + exponent
  if significand = 0 then 0
  else if 310 < places then infinityMagnitude
  else if places < -330 then 0
  else nearest (significand * Nat.pow 10 exponent.toNat) (Nat.pow 10 (-exponent).toNat)

/-- The number nearest to a whole number. -/
def ofInt (n : Int) : Number :=
  ofMagnitude (n < 0) (nearest n.natAbs 1)

end Keyset.Number
