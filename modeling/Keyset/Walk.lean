import Keyset.Query.Fetch

/-!
# Walks

A client that follows cursors from page to page. A visit takes the cursor that the client holds to a page; visits are
numbered, so the store, the limit and the filter may be other ones at every visit. A walk is as long as it finds cursors,
however many visits it is allowed.
-/

namespace Keyset

namespace Definition

variable [DecidableEq κ] [Row ρ]

/-- The page that a listing asks for, with the cursor of the next one. -/
def cursorPage (d : Definition κ) (filter : Option Predicate) (rows : List ρ) (listing : Listing κ) :
    Except QueryError (Page ρ CursorInfo) := do
  let query ← Query.ofListing d listing
  return query.cursorPage (query.fetch filter rows)

/-- The page that a listing asks for, with its number. -/
def offsetPage (d : Definition κ) (filter : Option Predicate) (rows : List ρ) (listing : Listing κ) :
    Except QueryError (Page ρ OffsetInfo) := do
  let query ← Query.ofListing d listing
  return query.offsetPage (query.fetch filter rows) (countMatching rows filter)

/-- The page behind a cursor, by one sort: a visit of a walk. -/
def visit (d : Definition κ) (sort : SortBy κ) (limit : UInt32) (filter : Option Predicate) (rows : List ρ)
    (cursor : Option String) : Except QueryError (Page ρ CursorInfo) :=
  d.cursorPage filter rows (.byCursor sort limit cursor)

end Definition

/-- How a walk went: its pages, the error that ended it, if one did, and the cursor that the client holds at the end. -/
structure Walk (ρ ε : Type) where
  pages : List (Page ρ CursorInfo)
  error : Option ε
  cursor : Option String

namespace Walk

/-- The rows of all pages, in the order in which they came. -/
def rows (walk : Walk ρ ε) : List ρ :=
  walk.pages.flatMap Page.data

/-- Makes at most `visits` visits from a number on, each with the cursor of the page before, until a page has none. -/
def run (visit : Nat → Option String → Except ε (Page ρ CursorInfo)) :
    (visits number : Nat) → (cursor : Option String) → Walk ρ ε
  | 0, _, cursor => ⟨[], none, cursor⟩
  | visits + 1, number, cursor =>
    match visit number cursor with
    | .error error => ⟨[], some error, cursor⟩
    | .ok page =>
      match page.pagination.nextCursor with
      | none => ⟨[page], none, none⟩
      | some next =>
        let rest := run visit visits (number + 1) (some next)
        { rest with pages := page :: rest.pages }

end Walk

end Keyset
