import Keyset.Column

/-!
# Sort tables

The columns by which a list may be sorted. Each has a key inside the program, a name for clients and a column of the
store; keys that are not exposed cannot be named by a client and do not compile.
-/

namespace Keyset

/-- The sort keys of a list, with their names and columns; the exposed ones in order. It is what `sort_columns` generates for an
enumeration: `ALL`, `name` and `column`. -/
structure SortTable (κ : Type) where
  exposed : List κ
  name : κ → String
  column : κ → Column

/-- A sort by one key (`SortSpec`). -/
structure SortBy (κ : Type) where
  key : κ
  direction : Direction
  deriving DecidableEq

namespace SortTable

/-- The first exposed key with a name (`from_name`). -/
def find? (table : SortTable κ) (name : String) : Option κ :=
  table.exposed.find? fun key => table.name key = name

/-- Whether clients can name a key (`is_sortable`). -/
def isExposed [DecidableEq κ] (table : SortTable κ) (key : κ) : Bool :=
  key ∈ table.exposed

/-- The first name in a list that also stands before its place, after the names `seen`. -/
def firstRepeated? (seen : List String) : List String → Option String
  | [] => none
  | name :: names => if name ∈ seen then some name else firstRepeated? (name :: seen) names

end SortTable

end Keyset
