import Keyset.Number.Rounding

/-!
# The shortest decimal of a number

The decimal that is written for a finite magnitude has the fewest digits that read back as the magnitude: for one,
two, … digits the two neighbours of the value on that decimal grid are tried, and of two that read back the nearer
is taken, the upper one in a tie. Seventeen digits always suffice; a magnitude that no grid hits is written out
exactly, so whatever is written reads back.
-/

namespace Keyset.Number

/-- A decimal: `significand * 10 ^ exponent`. -/
structure Scaled where
  significand : Nat
  exponent : Int
  deriving DecidableEq

/-- Drops the trailing zeros that stand behind the decimal point; at most `fuel` of them. -/
def Scaled.strip : Nat → Scaled → Scaled
  | 0, d => d
  | fuel + 1, d =>
    if d.exponent < 0 ∧ d.significand % 10 = 0 then strip fuel ⟨d.significand / 10, d.exponent + 1⟩ else d

/-- The same decimal without trailing zeros behind the point. -/
def Scaled.normal (d : Scaled) : Scaled :=
  d.strip (-d.exponent).toNat

/-- The magnitude that a decimal reads as. -/
def Scaled.magnitude (d : Scaled) : Nat :=
  nearestDecimal d.significand d.exponent

/-- How many places the whole part of a positive quotient has; zero or less counts the zeros behind the point. -/
def wholePlaces (num den : Nat) : Int :=
  if den ≤ num then (Decimal.digits (num / den)).length
  else
    let places := (Decimal.digits (den / num)).length
    if den ≤ num * Nat.pow 10 (places - 1) then 2 - places else 1 - places

/-- The two neighbours of `num / den` among the multiples of `10 ^ exponent`, the nearer first. -/
def neighbours (num den : Nat) (exponent : Int) : List Scaled :=
  let n := num * Nat.pow 10 (-exponent).toNat
  let d := den * Nat.pow 10 exponent.toNat
  let below : Scaled := ⟨n / d, exponent⟩
  let above : Scaled := ⟨n / d + 1, exponent⟩
  if d ≤ 2 * (n % d) then [above.normal, below.normal] else [below.normal, above.normal]

/-- The decimal of a quotient whose denominator is `2 ^ places`. -/
def exactDecimal (num places : Nat) : Scaled :=
  Scaled.normal ⟨num * Nat.pow 5 places, -(places : Int)⟩

/-- The decimal that is written for a finite, positive magnitude. -/
def shortest (magnitude : Nat) : Scaled :=
  let (num, den) := quotient magnitude
  let places := wholePlaces num den
  ((List.range 17).findSome? fun (n : Nat) =>
    (neighbours num den (places - n - 1)).find? (·.magnitude = magnitude)).getD
    (exactDecimal num (-scale magnitude).toNat)

/-- Positional text: no exponent, and a point only before digits. -/
def Scaled.text (d : Scaled) : List Char :=
  if 0 ≤ d.exponent then Decimal.digits d.significand ++ List.replicate d.exponent.toNat '0'
  else
    let places := (-d.exponent).toNat
    let ds := Decimal.padded (places + 1) d.significand
    ds.take (ds.length - places) ++ '.' :: ds.drop (ds.length - places)

end Keyset.Number
