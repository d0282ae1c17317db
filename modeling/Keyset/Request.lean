import Keyset.Column

/-!
# Requests

What a client asks for: a part of the list, by cursor or by page number, and sorts by name. Nothing is checked yet, so
numbers are signed and names are any texts.
-/

namespace Keyset

/-- Which part of the list is asked for (`PaginationRequest`). -/
inductive Paging where
  | cursor (limit : Option Int64) (token : Option String)
  | offset (page pageSize : Option Int64)
  deriving DecidableEq

namespace Paging

/-- The two ways to ask for a part of the list. -/
inductive Mode where
  | cursor
  | offset
  deriving DecidableEq

/-- The name of a mode. -/
def Mode.name : Mode → String
  | .cursor => "cursor"
  | .offset => "offset"

end Paging

/-- A sort by the name of a key (`SortRequest`). -/
structure NamedSort where
  name : String
  direction : Direction
  deriving DecidableEq

/-- What a client asks for; both parts may be absent (`ListQueryRequest`). -/
structure Request where
  paging : Option Paging := none
  sort : Option (List NamedSort) := none
  deriving DecidableEq

namespace Request

/-- A request for the page behind a cursor. -/
def ofCursor (limit : Option Int64) (token : Option String) : Request :=
  { paging := some (.cursor limit token) }

/-- A request for a page by its number. -/
def ofOffset (page pageSize : Option Int64) : Request :=
  { paging := some (.offset page pageSize) }

/-- The request with one more sort, less significant than those before it. -/
def sortBy (request : Request) (name : String) (direction : Direction) : Request :=
  { request with sort := some (request.sort.getD [] ++ [⟨name, direction⟩]) }

end Request

end Keyset
