import Keyset.Proofs.Query.Sorts
import Keyset.Proofs.RowOrder
import Keyset.Proofs.Sample
import Keyset.Proofs.Value.Comparable

/-!
# The comparison of rows is a preorder

Any two rows can be compared under any ordering, and the comparison is consistent: `RowOrder.compare_preorder`. Rows tie exactly when
they hold the same in every column. What that means is said for each kind of value (`Value.Same`, `RowOrder.SameSlot`), apart from the
orders of the values.
-/

namespace Keyset

open Std

/-- Values of one kind that are made of the same: of one text, of one word, or of one second and one nanosecond. -/
inductive Value.Same : Value → Value → Prop where
  | text {s s' : String} (same : s = s') : Same (.text s) (.text s')
  | number {x x' : Number} (same : x.bits = x'.bits) : Same (.number x) (.number x')
  | date {t t' : Instant} (seconds : t.seconds = t'.seconds) (nanos : t.nanos = t'.nanos) : Same (.date t) (.date t')

/-- Nothing but the value itself is made of the same. -/
theorem Value.same_iff_eq {v w : Value} : v.Same w ↔ v = w := by
  constructor
  · intro h
    cases h with
    | text same => rw [same]
    | @number x x' same =>
      cases x
      cases x'
      cases same
      rfl
    | @date t t' seconds nanos =>
      cases t
      cases t'
      cases seconds
      cases nanos
      rfl
  · rintro rfl
    cases v with
    | text s => exact .text rfl
    | number x => exact .number rfl
    | date t => exact .date rfl rfl

namespace RowOrder

/-- Two slots that both are missing, or both hold the same. -/
inductive SameSlot : Option Value → Option Value → Prop where
  | missing : SameSlot none none
  | present {v w : Value} (same : v.Same w) : SameSlot (some v) (some w)

/-- Slots compare equal when they hold the same. -/
theorem compareSlots_eq_eq_iff {a b : Option Value} : compareSlots a b = .eq ↔ SameSlot a b := by
  rw [LawfulEqCmp.compare_eq_iff_eq]
  constructor
  · rintro rfl
    cases a with
    | none => exact .missing
    | some v => exact .present (Value.same_iff_eq.2 rfl)
  · intro h
    cases h with
    | missing => rfl
    | present same => rw [Value.same_iff_eq.1 same]

/-- Under every ordering a row ties with itself, two rows compare in reverse when they change places, and a row that is not after one
that is not after a third is not after the third. Two rows tie when their slots hold the same in every column of the ordering. -/
theorem compare_preorder [Row ρ] (order : RowOrder) (x y z : ρ) :
    order.compare x x = .eq ∧ order.compare y x = (order.compare x y).swap ∧
      (order.compare x y ≠ .gt → order.compare y z ≠ .gt → order.compare x z ≠ .gt) ∧
      (order.compare x y = .eq ↔ ∀ field ∈ order.fields, SameSlot (Row.field x field.1) (Row.field y field.1)) := by
  refine ⟨ReflCmp.compare_self, OrientedCmp.eq_swap, ?_, ?_⟩
  · intro hxy hyz
    rw [ne_eq, Ordering.ne_gt_iff_isLE] at hxy hyz ⊢
    exact TransCmp.isLE_trans hxy hyz
  · simp only [compare_eq_eq_iff, ← compareSlots_eq_eq_iff, LawfulEqCmp.compare_eq_iff_eq]

/-- By level, highest first, and then by time: the zero is not after the negative zero, which is not after a reading without a level. -/
theorem compare_preorder_readings :
    let order : RowOrder := ⟨[(⟨"level"⟩, .desc), (⟨"time"⟩, .asc), (⟨"level"⟩, .asc)]⟩
    let middle := Sample.reading 1 5 .negativeZero "2"
    let last : Record := ⟨2, [(⟨"id"⟩, .text "3")]⟩
    order.compare (Sample.reading 0 7 .zero "1") middle ≠ .gt ∧ order.compare middle last ≠ .gt ∧
      order.compare (Sample.reading 0 7 .zero "1") last ≠ .gt := by
  intro order middle last
  have hfirst : order.compare (Sample.reading 0 7 .zero "1") middle ≠ .gt := by decide
  have hlast : order.compare middle last ≠ .gt := by decide
  exact ⟨hfirst, hlast, (compare_preorder order _ middle last).2.2.1 hfirst hlast⟩

end RowOrder

end Keyset
