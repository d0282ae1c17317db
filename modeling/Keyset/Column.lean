import Keyset.Value

/-!
# Columns, rows and directions

A column of the store is known by its name, an ordering by columns and directions. A row is anything that can be asked for the value
of a column.
-/

namespace Keyset

/-- A column of the store (`ColumnRef`). -/
structure Column where
  name : String
  deriving DecidableEq

/-- Rows have at most one value in each column; a column without a value is missing from the row. -/
class Row (ρ : Type) where
  field : ρ → Column → Option Value

/-- The direction of a sort (`SortDirection`). -/
inductive Direction where
  | asc
  | desc
  deriving DecidableEq

namespace Direction

/-- The name of a direction, as clients write it. -/
def name : Direction → String
  | .asc => "asc"
  | .desc => "desc"

/-- The name in capitals. -/
def keyword : Direction → String
  | .asc => "ASC"
  | .desc => "DESC"

/-- A comparison in this direction, from the ascending one. -/
def apply : Direction → Ordering → Ordering
  | .asc, ordering => ordering
  | .desc, ordering => ordering.swap

theorem apply_eq_eq_iff {d : Direction} {o : Ordering} : d.apply o = .eq ↔ o = .eq := by
  cases d <;> cases o <;> decide

end Direction

end Keyset
