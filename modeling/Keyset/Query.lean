import Keyset.QueryError
import Keyset.RowOrder

/-!
# Queries

A query is what a store needs to fetch one page: an ordering that the identity completes, the condition of the rows
behind a cursor, and how many rows to skip and to take. `Query.ofListing` (`compile`) makes it from a validated request; the
events that it traces on the way are left out, as nothing reads them back.
-/

namespace Keyset

/-- How the rows of a page are found among the ordered rows. -/
inductive Slice (κ : Type) where
  /-- The first `limit` rows behind a boundary, or the first of all. -/
  | behind (sort : SortBy κ) (column : Column) (seek : Option Predicate) (limit : UInt32)
  /-- The rows of a page by its number. -/
  | numbered (page pageSize : UInt32)

/-- What a store needs to fetch one page (`CompiledQuery`). -/
structure Query (κ : Type) where
  order : RowOrder
  identity : Column
  slice : Slice κ

namespace Query

/-- The condition on the rows behind the cursor. -/
def seek (q : Query κ) : Option Predicate :=
  match q.slice with
  | .behind _ _ seek _ => seek
  | .numbered .. => none

/-- How many rows a page has at most. -/
def pageLimit (q : Query κ) : UInt32 :=
  match q.slice with
  | .behind _ _ _ limit => limit
  | .numbered _ pageSize => pageSize

/-- How many rows to fetch: behind a cursor one more than the page has, to see whether another page follows. -/
def limit (q : Query κ) : UInt32 :=
  match q.slice with
  | .behind _ _ _ limit => if limit = Window.maxWord then limit else limit + 1
  | .numbered _ pageSize => pageSize

/-- How many rows to skip; nothing is said about that behind a cursor. -/
def offset? (q : Query κ) : Option UInt64 :=
  match q.slice with
  | .behind .. => none
  | .numbered page pageSize => some (UInt64.ofNat ((page.toNat - 1) * pageSize.toNat))

/-- The one sort of the cursor mode. -/
def cursorSort? (q : Query κ) : Option (SortBy κ) :=
  match q.slice with
  | .behind sort .. => some sort
  | .numbered .. => none

/-- The column of the one sort of the cursor mode. -/
def cursorColumn? (q : Query κ) : Option Column :=
  match q.slice with
  | .behind _ column .. => some column
  | .numbered .. => none

/-- The ordering by one column, with the identity in the same direction (`cursor_ordering`). -/
def cursorOrder (column identity : Column) (direction : Direction) : RowOrder :=
  ⟨[(column, direction), (identity, direction)]⟩

/-- The columns of sorts, up to the first that is not exposed. -/
def resolveFields [DecidableEq κ] (d : Definition κ) :
    List (SortBy κ) → Except DefinitionError (List (Column × Direction))
  | [] => .ok []
  | sort :: sorts => do
    let column ← d.resolve sort.key
    let rest ← resolveFields d sorts
    return (column, sort.direction) :: rest

/-- The fields with the identity behind them, unless it is one of them: in the direction of the last field, or in the
standard one when there is none (`offset_ordering`). -/
def completed (fields : List (Column × Direction)) (identity : Column) (standard : Direction) : RowOrder :=
  if fields.any (·.1 = identity) then ⟨fields⟩
  else ⟨fields ++ [(identity, (fields.getLast?.map Prod.snd).getD standard)]⟩

/-- The condition of the rows behind a cursor, when there is one. -/
def seekOf (column identity : Column) (direction : Direction) : Option String → Except TokenError (Option Predicate)
  | none => .ok none
  | some token => do
    let boundary ← Boundary.ofToken token
    return some (boundary.seek column identity direction)

/-- The query of a listing (`compile`). The sort column is looked up before the cursor is read. -/
def ofListing [DecidableEq κ] (d : Definition κ) (listing : Listing κ) : Except QueryError (Query κ) :=
  match listing.window with
  | .cursor limit token => do
    let sort := listing.sorts.headD d.defaultSort
    let column ← (d.resolve sort.key).mapError .definition
    let seek ← (seekOf column d.identity sort.direction token).mapError .token
    return ⟨cursorOrder column d.identity sort.direction, d.identity, .behind sort column seek limit⟩
  | .offset page pageSize => do
    let sorts := if listing.sorts.isEmpty then [d.defaultSort] else listing.sorts
    let fields ← (resolveFields d sorts).mapError .definition
    return ⟨completed fields d.identity d.defaultSort.direction, d.identity, .numbered page pageSize⟩

/-- The text of one column of an ordering. -/
def displayField : Column × Direction → String
  | (column, direction) => column.name ++ " " ++ direction.keyword

/-- The text of a query: condition, ordering, and the window. -/
def display (q : Query κ) : String :=
  (match q.seek with
    | some predicate => "WHERE " ++ predicate.display ++ " "
    | none => "") ++
  "ORDER BY " ++ ", ".intercalate (q.order.fields.map displayField) ++ s!" LIMIT {q.limit}" ++
  (match q.offset? with
    | some offset => s!" OFFSET {offset}"
    | none => "")

end Query

end Keyset
