import Keyset.Predicate

/-!
# Boundaries between pages

The place in an ordering where a page ends: what its last row holds in the sort column and in the identity column.
The rows behind a boundary are those that meet its `seek` condition.
-/

namespace Keyset

/-- The sort value and the identity of the last row of a page, what a cursor carries (`CursorPayload`). -/
structure Boundary where
  value : Value
  id : Value
  deriving DecidableEq

namespace Boundary

/-- The boundary at a row, if the row has both values. -/
def ofRow? [Row ρ] (column identity : Column) (row : ρ) : Option Boundary :=
  match Row.field row column, Row.field row identity with
  | some value, some id => some ⟨value, id⟩
  | _, _ => none

/-- The operator that looks behind a boundary. -/
def behind : Direction → Operator
  | .asc => .gt
  | .desc => .lt

/-- The condition on the rows behind a boundary: a sort value behind that of the boundary, or the same value and an
identity behind (`seek_predicate`). -/
def seek (boundary : Boundary) (column identity : Column) (direction : Direction) : Predicate :=
  .disj
    [.compare column (behind direction) boundary.value,
      .conj [.compare column .eq boundary.value, .compare identity (behind direction) boundary.id]]

/-- Whether two boundaries agree in both values. -/
def agrees (a b : Boundary) : Bool :=
  a.value.agrees b.value && a.id.agrees b.id

end Boundary

end Keyset
