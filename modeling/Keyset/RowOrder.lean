import Keyset.Column

/-!
# Orderings of rows

Rows are compared column by column, each in its direction; a missing value comes below every present one. Sorting is
stable.
-/

namespace Keyset

/-- Columns with directions, the most significant first (`OrderSpec`). -/
structure RowOrder where
  fields : List (Column × Direction)
  deriving DecidableEq

namespace RowOrder

/-- The order of what two rows hold in a column, ascending (`compare_slots`). -/
def compareSlots : Option Value → Option Value → Ordering
  | none, none => .eq
  | none, some _ => .lt
  | some _, none => .gt
  | some a, some b => a.compare b

/-- The comparison of two rows by one column after another. -/
def compareBy [Row ρ] (a b : ρ) : List (Column × Direction) → Ordering
  | [] => .eq
  | (column, direction) :: fields =>
    (direction.apply (compareSlots (Row.field a column) (Row.field b column))).then (compareBy a b fields)

/-- The comparison of two rows: the first column in which they differ decides (`compare_rows`). -/
def compare [Row ρ] (order : RowOrder) (a b : ρ) : Ordering :=
  compareBy a b order.fields

/-- The rows in order; rows that compare equal keep their places (`apply_ordering`). -/
def sort [Row ρ] (order : RowOrder) (rows : List ρ) : List ρ :=
  rows.mergeSort fun a b => (order.compare a b).isLE

/-- Whether the identity takes part, so that no two rows of different identity compare equal (`is_total`). -/
def isTotal (order : RowOrder) (identity : Column) : Bool :=
  order.fields.any (·.1 = identity)

/-- The least significant column. -/
def last? (order : RowOrder) : Option (Column × Direction) :=
  order.fields.getLast?

end RowOrder

end Keyset
