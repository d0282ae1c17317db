import Keyset.Predicate

/-!
# Joined conditions

`admits_conjoin`: a conjunction of conditions that may be absent asks for each of them that is present, however the joined
conditions are nested.
-/

namespace Keyset.Predicate

variable [Row ρ]

theorem holds_conj (row : ρ) (parts : List Predicate) : (conj parts).holds row = parts.all (holds row) := by
  rw [holds, allHold_eq_all]

theorem holds_disj (row : ρ) (parts : List Predicate) : (disj parts).holds row = parts.any (holds row) := by
  rw [holds, anyHolds_eq_any]

/-- A comparison holds of what a row holds in the column. -/
theorem holds_compare {row : ρ} {column : Column} {operator : Operator} {value : Value} :
    (compare column operator value).holds row = true ↔
      ∃ v, Row.field row column = some v ∧ v.compare? value = some operator.wanted := by
  rw [holds]
  cases Row.field row column with
  | none =>
    constructor
    · intro h
      cases h
    · rintro ⟨v, hv, -⟩
      cases hv
  | some v =>
    rw [compares, decide_eq_true_iff]
    constructor
    · intro h
      exact ⟨v, rfl, h⟩
    · rintro ⟨w, hw, h⟩
      cases hw
      exact h

/-- The conditions that a part adds to a conjunction hold together when the part does. -/
theorem all_conjuncts (row : ρ) (part : Predicate) : part.conjuncts.all (holds row) = part.holds row := by
  cases part with
  | conj parts => exact (holds_conj row parts).symm
  | disj parts => exact Bool.and_true _
  | compare column operator value => exact Bool.and_true _

/-- A conjunction of conditions that may be absent admits the rows that each of them admits. -/
theorem admits_conjoin (row : ρ) (parts : List (Option Predicate)) :
    admits (conjoin parts) row = parts.all fun part => admits part row := by
  have hflat : ((parts.filterMap id).flatMap conjuncts).all (holds row) = parts.all fun part => admits part row := by
    induction parts with
    | nil => rfl
    | cons part parts ih =>
      cases part with
      | none => exact ih
      | some part =>
        have hsplit : ((some part :: parts).filterMap id).flatMap conjuncts =
            part.conjuncts ++ (parts.filterMap id).flatMap conjuncts := rfl
        rw [hsplit, List.all_append, all_conjuncts, ih, List.all_cons]
        rfl
  rw [← hflat, conjoin]
  cases (parts.filterMap id).flatMap conjuncts with
  | nil => rfl
  | cons first rest =>
    cases rest with
    | nil => exact (Bool.and_true _).symm
    | cons second rest => exact holds_conj row _

end Keyset.Predicate
