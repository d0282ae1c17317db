import Keyset.Number.Shortest

/-!
# Numbers as text

`Number.text` writes a number with the fewest digits that read back, always in positional notation. `Number.parse?`
reads a decimal numeral with optional sign and exponent, rounds it correctly, and reads the words for infinity and
NaN in any case.
-/

namespace Keyset.Number

/-- The text of a number; a NaN shows no sign. -/
def chars (x : Number) : List Char :=
  if x.isNaN then "NaN".toList
  else
    let body :=
      if x.magnitude = infinityMagnitude then "inf".toList
      else if x.magnitude = 0 then ['0']
      else (shortest x.magnitude).text
    if x.isNegative then '-' :: body else body

/-- The text of a number; a NaN shows no sign. -/
def text (x : Number) : String :=
  String.ofList x.chars

/-- A leading sign, and what follows it; without a sign the number is not negative. -/
def takeSign : List Char → Bool × List Char
  | '-' :: rest => (true, rest)
  | '+' :: rest => (false, rest)
  | rest => (false, rest)

/-- The leading digits, and what follows them. -/
def takeDigits (cs : List Char) : List Char × List Char :=
  (cs.takeWhile Char.isDigit, cs.dropWhile Char.isDigit)

/-- An exponent that ends the text: empty, or the letter, an optional sign and at least one digit. -/
def exponentOf? : List Char → Option Int
  | [] => some 0
  | c :: rest =>
    let (negative, ds) := takeSign rest
    if (c = 'e' ∨ c = 'E') ∧ ds ≠ [] ∧ ds.all Char.isDigit then
      some (if negative then -(Decimal.value ds : Int) else Decimal.value ds)
    else none

/-- A decimal numeral without its sign: digits with at most one point, at least one digit, and an exponent. -/
def scaledOf? (cs : List Char) : Option Scaled := do
  let (whole, rest) := takeDigits cs
  let (fraction, rest) := match rest with
    | '.' :: rest => takeDigits rest
    | rest => ([], rest)
  if whole = [] ∧ fraction = [] then none
  else
    let exponent ← exponentOf? rest
    some ⟨Decimal.value (whole ++ fraction), exponent - fraction.length⟩

/-- The magnitude that an unsigned text writes: a numeral, or a word in any case. -/
def magnitudeOf? (cs : List Char) : Option Nat :=
  let word := String.ofList (cs.map Char.toLower)
  if word = "inf" ∨ word = "infinity" then some infinityMagnitude
  else if word = "nan" then some quietMagnitude
  else (scaledOf? cs).map Scaled.magnitude

/-- The number that the whole text writes. -/
def parse? (text : String) : Option Number :=
  let (negative, cs) := takeSign text.toList
  (magnitudeOf? cs).map (ofMagnitude negative)

end Keyset.Number
