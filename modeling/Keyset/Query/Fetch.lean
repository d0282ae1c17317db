import Keyset.Page
import Keyset.Query

/-!
# Fetching pages

What a query gives on a list of rows, and the page that is made of it. A fetch behind a cursor has one row more than
the page; that row only tells that another page follows, and the cursor of the next page is that of the last row of
this one.
-/

namespace Keyset

/-- The cursor behind the page of the first `pageLimit` rows, if more rows follow and the last row of the page has a
value in the sort column and an identity (`compute_next_cursor`). -/
def nextCursor [Row ρ] (rows : List ρ) (pageLimit : UInt32) (column : Option Column) (identity : Column) :
    Option String :=
  match column with
  | none => none
  | some column =>
    if rows.length ≤ pageLimit.toNat then none
    else ((rows.take pageLimit.toNat).getLast?.bind (Boundary.ofRow? column identity)).map Boundary.token

namespace Query

/-- The condition of the query joined with that of the caller. -/
def whereClause (q : Query κ) (filter : Option Predicate) : Option Predicate :=
  Predicate.conjoin [filter, q.seek]

/-- The rows that meet the condition, in order. -/
def matching [Row ρ] (q : Query κ) (filter : Option Predicate) (rows : List ρ) : List ρ :=
  q.order.sort (rows.filter (Predicate.admits (q.whereClause filter)))

/-- The rows that a store fetches (`execute_filtered`, and `execute` without a filter). -/
def fetch [Row ρ] (q : Query κ) (filter : Option Predicate) (rows : List ρ) : List ρ :=
  ((q.matching filter rows).drop ((q.offset?.map UInt64.toNat).getD 0)).take q.limit.toNat

/-- The cursor behind the page made of fetched rows. -/
def nextCursor [Row ρ] (q : Query κ) (fetched : List ρ) : Option String :=
  Keyset.nextCursor fetched q.pageLimit q.cursorColumn? q.identity

/-- The page of fetched rows, with the cursor of the next one (`into_cursor_page`). -/
def cursorPage [Row ρ] (q : Query κ) (fetched : List ρ) : Page ρ CursorInfo :=
  ⟨fetched.take q.pageLimit.toNat, q.pageLimit.toNat < fetched.length, q.nextCursor fetched⟩

/-- The page of fetched rows, with its number (`into_offset_page`); `total` counts the rows of all pages. -/
def offsetPage (q : Query κ) (fetched : List ρ) (total : UInt64) : Page ρ OffsetInfo :=
  let page := match q.slice with
    | .behind .. => 1
    | .numbered page _ => page
  ⟨fetched, .of page q.pageLimit total⟩

end Query

end Keyset
