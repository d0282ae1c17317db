import Keyset.Policy
import Keyset.SortTable

/-!
# Definitions of lists

What a list is sorted by, its identity column, the sort when none is asked for, and its pagination policy, which is
always a valid one.
-/

namespace Keyset

/-- What is wrong with a definition, or with a sort that does not belong to it (`CompilationError`). -/
inductive DefinitionError where
  | unknownSortColumn (name : String)
  | duplicateSortColumn (name : String)
  deriving DecidableEq

/-- The wording of an error. -/
def DefinitionError.message : DefinitionError → String
  | .unknownSortColumn name => "sort column '" ++ name ++ "' is not in the sortable set"
  | .duplicateSortColumn name => "sort column name '" ++ name ++ "' is declared more than once"

/-- A list that clients can page through (`ListQueryDefinition`). The identity column breaks ties between rows. -/
structure Definition (κ : Type) where
  table : SortTable κ
  identity : Column
  defaultSort : SortBy κ
  policy : Policy := .standard
  policy_isValid : policy.IsValid := by decide

namespace Definition

/-- The definition with another policy, if that is valid. -/
def withPolicy (d : Definition κ) (policy : Policy) : Except PolicyError (Definition κ) :=
  match h : policy.fault? with
  | some fault => .error fault
  | none => .ok { d with policy, policy_isValid := Policy.fault?_eq_none_iff.1 h }

/-- The column of an exposed sort key. -/
def resolve [DecidableEq κ] (d : Definition κ) (key : κ) : Except DefinitionError Column :=
  if d.table.isExposed key then .ok (d.table.column key) else .error (.unknownSortColumn (d.table.name key))

/-- What is wrong with the definition itself: its default sort is not exposed, or two exposed keys share a name
(`validate`). -/
def fault? [DecidableEq κ] (d : Definition κ) : Option DefinitionError :=
  if d.table.isExposed d.defaultSort.key then
    (SortTable.firstRepeated? [] (d.table.exposed.map d.table.name)).map .duplicateSortColumn
  else some (.unknownSortColumn (d.table.name d.defaultSort.key))

end Definition

end Keyset
