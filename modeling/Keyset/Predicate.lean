import Keyset.Column

/-!
# Predicates

Conditions on rows: comparisons of a column with a value, joined by conjunction and disjunction. A comparison does not
hold where the column is missing or the values are not comparable. `conjoin` joins conditions that may be absent.
-/

namespace Keyset

/-- How a column is compared with a value (`CompareOp`). -/
inductive Operator where
  | eq
  | lt
  | gt
  deriving DecidableEq

namespace Operator

/-- The sign of an operator. -/
def symbol : Operator → String
  | .eq => "="
  | .lt => "<"
  | .gt => ">"

/-- The result of a comparison that the operator asks for. -/
def wanted : Operator → Ordering
  | .eq => .eq
  | .lt => .lt
  | .gt => .gt

end Operator

/-- A condition on rows. -/
inductive Predicate where
  | conj (parts : List Predicate)
  | disj (parts : List Predicate)
  | compare (column : Column) (operator : Operator) (value : Value)

namespace Predicate

/-- Whether a value in a column, if there is one, compares with a value as the operator asks (`eval_compare`). -/
def compares (actual : Option Value) (operator : Operator) (value : Value) : Bool :=
  match actual with
  | some actual => actual.compare? value = some operator.wanted
  | none => false

mutual

/-- Whether a row meets a condition (`eval_predicate`). -/
def holds [Row ρ] (row : ρ) : Predicate → Bool
  | .conj parts => allHold row parts
  | .disj parts => anyHolds row parts
  | .compare column operator value => compares (Row.field row column) operator value

/-- Whether a row meets all of the conditions. -/
def allHold [Row ρ] (row : ρ) : List Predicate → Bool
  | [] => true
  | part :: parts => holds row part && allHold row parts

/-- Whether a row meets one of the conditions. -/
def anyHolds [Row ρ] (row : ρ) : List Predicate → Bool
  | [] => false
  | part :: parts => holds row part || anyHolds row parts

end

theorem allHold_eq_all [Row ρ] (row : ρ) (parts : List Predicate) : allHold row parts = parts.all (holds row) := by
  induction parts with
  | nil => rfl
  | cons part parts ih => rw [allHold, ih, List.all_cons]

theorem anyHolds_eq_any [Row ρ] (row : ρ) (parts : List Predicate) : anyHolds row parts = parts.any (holds row) := by
  induction parts with
  | nil => rfl
  | cons part parts ih => rw [anyHolds, ih, List.any_cons]

/-- Whether a row meets a condition that may be absent. -/
def admits [Row ρ] (filter : Option Predicate) (row : ρ) : Bool :=
  match filter with
  | none => true
  | some predicate => predicate.holds row

/-- The conditions that a part adds to a conjunction: those of a conjunction are taken one by one. -/
def conjuncts : Predicate → List Predicate
  | .conj parts => parts
  | part => [part]

/-- The conjunction of the parts that are present; of one condition that condition, of none nothing (`all`). -/
def conjoin (parts : List (Option Predicate)) : Option Predicate :=
  match (parts.filterMap id).flatMap conjuncts with
  | [] => none
  | [part] => some part
  | parts => some (.conj parts)

mutual

/-- The text of a condition: a joined part stands in parentheses, a joint of nothing is a word. -/
def display : Predicate → String
  | .conj [] => "TRUE"
  | .conj parts => " AND ".intercalate (displayParts parts)
  | .disj [] => "FALSE"
  | .disj parts => " OR ".intercalate (displayParts parts)
  | .compare column operator value => column.name ++ " " ++ operator.symbol ++ " " ++ value.display

/-- The texts of conditions that are joined. -/
def displayParts : List Predicate → List String
  | [] => []
  | .compare column operator value :: parts => display (.compare column operator value) :: displayParts parts
  | part :: parts => ("(" ++ display part ++ ")") :: displayParts parts

end

end Predicate

/-- How many rows meet a condition that may be absent (`count_matching`); the count stops at the largest 64-bit word. -/
def countMatching [Row ρ] (rows : List ρ) (filter : Option Predicate) : UInt64 :=
  UInt64.ofNat (min (rows.countP (Predicate.admits filter)) 0xFFFFFFFFFFFFFFFF)

end Keyset
