import Keyset.Number.Numeral
import Keyset.Calendar.Timestamp

/-!
# Values

What a row holds in a column and a cursor carries: a text, a number or an instant. There are two comparisons: `compare`
orders all values, numbers first, then instants, then texts; `compare?` knows only values of one kind and no NaN. A
value also has a text without its kind, from which `ofText?` reads it back.
-/

namespace Keyset

/-- A scalar value; its kind is its constructor and is never guessed from what it holds. -/
inductive Value where
  | text (value : String)
  | number (value : Number)
  | date (value : Instant)
  deriving DecidableEq

namespace Value

/-- The kinds of values (`ValueTag`). -/
inductive Kind where
  | text
  | number
  | date
  deriving DecidableEq

/-- The name of a kind, as it stands in a cursor. -/
def Kind.name : Kind → String
  | .text => "string"
  | .number => "number"
  | .date => "date"

/-- The place of a kind in the order of all values. -/
def Kind.rank : Kind → Nat
  | .number => 0
  | .date => 1
  | .text => 2

/-- The kind of a value. -/
def kind : Value → Kind
  | .text _ => .text
  | .number _ => .number
  | .date _ => .date

/-- The text that a value is, if it is one. -/
def text? : Value → Option String
  | .text value => some value
  | _ => none

/-- The number that a value is, if it is one. -/
def number? : Value → Option Number
  | .number value => some value
  | _ => none

/-- The instant that a value is, if it is one. -/
def date? : Value → Option Instant
  | .date value => some value
  | _ => none

/-- The total order of all values: by the rank of the kind, then inside the kind (`canonical_cmp`). -/
def compare : Value → Value → Ordering
  | .text a, .text b => Ord.compare a b
  | .number a, .number b => a.totalCompare b
  | .date a, .date b => a.compare b
  | a, b => Ord.compare a.kind.rank b.kind.rank

/-- The order of values that are comparable: both of one kind, and no NaN (`strict_order_cmp`). -/
def compare? : Value → Value → Option Ordering
  | .text a, .text b => some (Ord.compare a b)
  | .number a, .number b => a.compare? b
  | .date a, .date b => some (a.compare b)
  | _, _ => none

/-- Whether two values are comparable and equal; the two zeros are, a NaN is not equal to itself. -/
def agrees (a b : Value) : Bool :=
  a.compare? b = some .eq

/-- A value as it is shown: texts and instants between apostrophes. -/
def display : Value → String
  | .text value => "'" ++ value ++ "'"
  | .number value => value.text
  | .date value => "'" ++ value.text ++ "'"

/-- The text of a value without its kind; instants are cut to milliseconds (`serialize_value`). -/
def toText : Value → String
  | .text value => value
  | .number value => value.text
  | .date value => value.text

/-- The value of a kind that a text writes (`deserialize_value`). -/
def ofText? (kind : Kind) (text : String) : Option Value :=
  match kind with
  | .text => some (.text text)
  | .number => (Number.parse? text).map .number
  | .date => (Instant.parse? text).map .date

end Value

end Keyset
