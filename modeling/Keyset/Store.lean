import Keyset.Walk

/-!
# A store of rows

A table with a client in front of it, for sessions of several requests. It stands for what the library leaves to the service that
uses it: rows by label, in the order in which they were inserted, the definition of the list, and the cursor that the client holds.
Steps that can fail give a new store only when they do not.
-/

namespace Keyset

/-- A row of the store: a label that never changes, and the values by column. -/
structure Record where
  label : Nat
  values : List (Column × Value)

namespace Record

/-- The row with a value in a column, or without one. -/
def set (record : Record) (column : Column) (value : Option Value) : Record :=
  let others := record.values.filter (·.1 ≠ column)
  match value with
  | some value => { record with values := (column, value) :: others }
  | none => { record with values := others }

/-- A record is asked for the first value under a column. -/
instance : Row Record where
  field record column := record.values.lookup column

end Record

/-- The state between two steps. -/
structure Store (κ : Type) where
  definition : Definition κ
  records : List Record
  nextLabel : Nat
  cursor : Option String

namespace Store

/-- A store of rows that are labelled by their places. -/
def ofRows (definition : Definition κ) (rows : List (List (Column × Value))) : Store κ :=
  ⟨definition, rows.mapIdx fun label values => ⟨label, values⟩, rows.length, none⟩

/-- The store with one more row, under the next label. -/
def insert (store : Store κ) (values : List (Column × Value)) : Store κ :=
  { store with
    records := store.records ++ [⟨store.nextLabel, values⟩]
    nextLabel := store.nextLabel + 1 }

/-- The store without the row with a label. -/
def erase (store : Store κ) (label : Nat) : Store κ :=
  { store with records := store.records.filter (·.label ≠ label) }

/-- Whether there is a row with a label. -/
def contains (store : Store κ) (label : Nat) : Bool :=
  store.records.any (·.label = label)

/-- Sets or removes a value of the row with a label. -/
def set (store : Store κ) (label : Nat) (column : Column) (value : Option Value) : Store κ :=
  { store with
    records := store.records.map fun record => if record.label = label then record.set column value else record }

/-- The store with the policy of a document. -/
def setPolicy (store : Store κ) (text : String) : Except QueryError (Store κ) := do
  let policy ← (Policy.ofJson text).mapError .policy
  let definition ← (store.definition.withPolicy policy).mapError .policy
  return { store with definition }

/-- What the client asks of the list, apart from the cursor. -/
structure Inquiry where
  limit : Option Int64
  sorts : List NamedSort
  filter : Option Predicate

/-- A request with the sorts of a list added one by one. -/
def withSorts (request : Request) (sorts : List NamedSort) : Request :=
  sorts.foldl (fun request sort => request.sortBy sort.name sort.direction) request

variable [DecidableEq κ]

/-- The page behind a cursor. -/
def pageAt (store : Store κ) (inquiry : Inquiry) (cursor : Option String) :
    Except QueryError (Page Record CursorInfo) := do
  let request := withSorts (.ofCursor inquiry.limit cursor) inquiry.sorts
  let listing ← (Listing.ofRequest store.definition request).mapError .request
  store.definition.cursorPage inquiry.filter store.records listing

/-- Fetches a page; the client then holds its cursor. -/
def page (store : Store κ) (inquiry : Inquiry) (cursor : Option String) :
    Except QueryError (Page Record CursorInfo × Store κ) := do
  let page ← store.pageAt inquiry cursor
  return (page, { store with cursor := page.pagination.nextCursor })

/-- Walks from the first page; when the first page fails the client keeps the cursor that it holds. -/
def walk (store : Store κ) (inquiry : Inquiry) (pages : Nat) : Walk Record QueryError × Store κ :=
  let walk := Walk.run (fun _ => store.pageAt inquiry) pages 0 none
  (walk, if walk.pages.isEmpty then store else { store with cursor := walk.cursor })

/-- The page with a number. -/
def numberedPage (store : Store κ) (page pageSize : Option Int64) (sorts : List NamedSort) (filter : Option Predicate) :
    Except QueryError (Page Record OffsetInfo) := do
  let request := withSorts (.ofOffset page pageSize) sorts
  let listing ← (Listing.ofRequest store.definition request).mapError .request
  store.definition.offsetPage filter store.records listing

end Store

end Keyset
