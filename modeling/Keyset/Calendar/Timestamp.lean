import Keyset.Calendar.Instant
import Keyset.Text.Lexical

/-!
# Timestamps

`Instant.text` writes an instant in universal time with milliseconds. `Instant.parse?` reads a timestamp with an
offset, or else, before a final `Z`, the expanded form: years with a sign and any number of digits, fields that may
be short and may follow blanks.
-/

namespace Keyset.Instant

/-- A year from 0 to 9999 has four digits, any other a sign and at least four digits. -/
def yearChars (year : Int) : List Char :=
  if 0 ≤ year ∧ year ≤ 9999 then Decimal.padded 4 year.toNat
  else (if year < 0 then '-' else '+') :: Decimal.padded 4 year.natAbs

/-- The timestamp of an instant in universal time, cut to milliseconds; a leap second shows as second 60, or as the next second when it
is not at the end of a minute. -/
def chars (t : Instant) : List Char :=
  let second := t.secondOfDay % 60 + t.nanos / 1000000000
  yearChars t.date.year ++ '-' :: Decimal.padded 2 t.date.month ++ '-' :: Decimal.padded 2 t.date.day ++
    'T' :: Decimal.padded 2 (t.secondOfDay / 3600) ++ ':' :: Decimal.padded 2 (t.secondOfDay / 60 % 60) ++
    ':' :: Decimal.padded 2 second ++ '.' :: Decimal.padded 3 (t.nanos % 1000000000 / 1000000) ++ ['Z']

/-- The timestamp of an instant, as a text. -/
def text (t : Instant) : String :=
  String.ofList t.chars

/-- What is left after one expected character. -/
def char? (expected : Char) : List Char → Option (List Char)
  | [] => none
  | c :: rest => if c = expected then some rest else none

/-- A number of exactly `width` digits, and what follows it. -/
def fixed? (width : Nat) (cs : List Char) : Option (Nat × List Char) :=
  let ds := cs.take width
  if ds.length = width ∧ ds.all Char.isDigit then some (Decimal.value ds, cs.drop width) else none

/-- A number of one to `width` digits, as many as there are, and what follows it. -/
def short? (width : Nat) (cs : List Char) : Option (Nat × List Char) :=
  let ds := (cs.take width).takeWhile Char.isDigit
  if ds = [] then none else some (Decimal.value ds, cs.drop ds.length)

/-- The nanoseconds that the digits of a fraction write; those past the ninth are dropped. -/
def nanosOfFraction (ds : List Char) : Nat :=
  Decimal.value (ds.take 9) * Nat.pow 10 (9 - ds.length)

/-- An optional fraction, a point and at least one digit, in nanoseconds, and what follows it. -/
def fraction? : List Char → Option (Nat × List Char)
  | '.' :: rest =>
    let ds := rest.takeWhile Char.isDigit
    if ds = [] then none else some (nanosOfFraction ds, rest.drop ds.length)
  | rest => some (0, rest)

/-- An offset from universal time that ends the text: `Z` in either case, or a signed offset in hours and minutes
below 24 hours, where the minus sign U+2212 counts as a minus. -/
def offset? : List Char → Option Int
  | [] => none
  | sign :: rest =>
    if (sign = 'Z' ∨ sign = 'z') ∧ rest = [] then some 0
    else do
      let (hours, rest) ← fixed? 2 rest
      let (minutes, rest) ← char? ':' rest >>= fixed? 2
      if hours ≤ 23 ∧ minutes ≤ 59 ∧ rest = [] then
        let seconds : Int := 3600 * hours + 60 * minutes
        if sign = '+' then some seconds
        else if sign = '-' ∨ sign = '\u2212' then some (-seconds)
        else none
      else none

/-- A timestamp with fields of fixed width, a `T` in either case or a space before the time, and an offset. -/
def ofTimestamp? (cs : List Char) : Option Instant := do
  let (year, cs) ← fixed? 4 cs
  let (month, cs) ← char? '-' cs >>= fixed? 2
  let (day, cs) ← char? '-' cs >>= fixed? 2
  let cs ← char? 'T' cs <|> char? 't' cs <|> char? ' ' cs
  let (hour, cs) ← fixed? 2 cs
  let (minute, cs) ← char? ':' cs >>= fixed? 2
  let (second, cs) ← char? ':' cs >>= fixed? 2
  let (nanos, cs) ← fraction? cs
  ofCivil? ⟨year, month, day⟩ hour minute second nanos (← offset? cs)

/-- A year of one to four digits, or of any number of digits after a sign, and what follows it. -/
def year? (cs : List Char) : Option (Int × List Char) :=
  match cs with
  | '-' :: rest => (short? rest.length rest).map fun (n, rest) => (-(n : Int), rest)
  | '+' :: rest => (short? rest.length rest).map fun (n, rest) => ((n : Int), rest)
  | rest => (short? 4 rest).map fun (n, rest) => ((n : Int), rest)

/-- A field of one or two digits, after blanks, and what follows it. -/
def field? (cs : List Char) : Option (Nat × List Char) :=
  short? 2 (dropBlanks cs)

/-- The expanded form without its final `Z` (`EXPANDED_DATE_FORMAT`). -/
def ofExpanded? (cs : List Char) : Option Instant := do
  let (year, cs) ← year? (dropBlanks cs)
  let (month, cs) ← char? '-' cs >>= field?
  let (day, cs) ← char? '-' cs >>= field?
  let (hour, cs) ← char? 'T' cs >>= field?
  let (minute, cs) ← char? ':' cs >>= field?
  let (second, cs) ← char? ':' cs >>= field?
  let (nanos, cs) ← fraction? cs
  if cs = [] then ofCivil? ⟨year, month, day⟩ hour minute second nanos 0 else none

/-- The instant that a text writes (`parse_date`). -/
def parse? (text : String) : Option Instant :=
  let cs := text.toList
  ofTimestamp? cs <|> if cs.getLast? = some 'Z' then ofExpanded? cs.dropLast else none

end Keyset.Instant
