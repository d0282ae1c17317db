import Keyset.Value

/-!
# The order of values

The total comparisons of numbers, instants and values are oriented and transitive, and nothing but equal things compare equal.
They are instances, so the order of rows takes them over.
-/

namespace Keyset

open Std

/-! ## Numbers and instants -/

/-- A word is told by its place in the total order. -/
theorem Number.totalKey_inj {x y : Number} (h : x.totalKey = y.totalKey) : x = y := by
  rw [← ofMagnitude_magnitude x, ← ofMagnitude_magnitude y]
  unfold totalKey at h
  cases hx : x.isNegative <;> cases hy : y.isNegative <;> simp only [hx, hy, if_true, Bool.false_eq_true, if_false] at h
  · have hmagnitude : x.magnitude = y.magnitude := by omega
    rw [hmagnitude]
  · omega
  · omega
  · have hmagnitude : x.magnitude = y.magnitude := by omega
    rw [hmagnitude]

/-- The total order of words is an order. -/
instance : TransCmp Number.totalCompare :=
  inferInstanceAs (TransCmp (compareOn Number.totalKey))

/-- Words that compare equal are equal. -/
instance : LawfulEqCmp Number.totalCompare where
  compare_self := ReflCmp.compare_self
  eq_of_compare h := Number.totalKey_inj (LawfulEqOrd.eq_of_compare h)

/-- The order of instants is an order. -/
instance : TransCmp Instant.compare :=
  inferInstanceAs (TransCmp (compareLex (compareOn Instant.seconds) (compareOn Instant.nanos)))

/-- Instants that compare equal are equal. -/
instance : LawfulEqCmp Instant.compare where
  compare_self := ReflCmp.compare_self
  eq_of_compare {a b} h := by
    obtain ⟨hseconds, hnanos⟩ := Ordering.then_eq_eq.1 h
    cases a
    cases b
    cases LawfulEqOrd.eq_of_compare hseconds
    cases LawfulEqOrd.eq_of_compare hnanos
    rfl

/-- An instant is not later than another when its second is earlier, or when it is the same and has no more nanoseconds. -/
theorem Instant.isLE_compare_iff {s t : Instant} :
    (s.compare t).isLE = true ↔ s.seconds < t.seconds ∨ s.seconds = t.seconds ∧ s.nanos ≤ t.nanos := by
  rw [compare, Ordering.isLE_then_iff_or, Int.compare_eq_lt, Int.compare_eq_eq, Nat.isLE_compare]

/-! ## Values -/

/-- The order of values is an order. -/
instance : TransCmp Value.compare where
  eq_swap {a b} := by
    cases a <;> cases b
    case text.text s s' => exact (OrientedOrd.eq_swap : Ord.compare s s' = _)
    case number.number x y => exact (OrientedCmp.eq_swap : x.totalCompare y = _)
    case date.date t t' => exact (OrientedCmp.eq_swap : t.compare t' = _)
    all_goals rfl
  isLE_trans {a b c} hab hbc := by
    cases a <;> cases b <;> cases c
    case text.text.text s _ s' => exact (TransOrd.isLE_trans hab hbc : (Ord.compare s s').isLE)
    case number.number.number x _ y => exact (TransCmp.isLE_trans hab hbc : (x.totalCompare y).isLE)
    case date.date.date t _ t' => exact (TransCmp.isLE_trans hab hbc : (t.compare t').isLE)
    -- Kinds that differ are in order by their ranks, or one of the two hypotheses is not.
    all_goals first
      | rfl
      | exact absurd hab Bool.false_ne_true
      | exact absurd hbc Bool.false_ne_true

/-- Values that compare equal are equal. -/
instance : LawfulEqCmp Value.compare where
  compare_self := ReflCmp.compare_self
  eq_of_compare {a b} h := by
    cases a <;> cases b
    case text.text => exact congrArg Value.text (LawfulEqOrd.eq_of_compare h)
    case number.number x y =>
      have hkey : x.totalCompare y = .eq := h
      rw [LawfulEqCmp.eq_of_compare hkey]
    case date.date t t' =>
      have hplace : t.compare t' = .eq := h
      rw [LawfulEqCmp.eq_of_compare hplace]
    all_goals cases h

end Keyset
