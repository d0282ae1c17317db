import Keyset.Proofs.Value.Order
import Keyset.RowOrder

/-!
# The order of rows

Every ordering orders rows, whatever they hold. Rows compare equal when they hold the same in every column of the ordering
(`compare_eq_eq_iff`), and sorting puts rows no two of which compare equal into strict order (`pairwise_lt_sort`).
-/

namespace Keyset

open Std

namespace RowOrder

/-! ## Slots -/

/-- The order of slots is an order. -/
instance : TransCmp compareSlots where
  eq_swap {a b} := by
    cases a <;> cases b
    case some.some v w => exact (OrientedCmp.eq_swap : v.compare w = _)
    all_goals rfl
  isLE_trans {a b c} hab hbc := by
    cases a <;> cases b <;> cases c
    case some.some.some v _ w => exact (TransCmp.isLE_trans hab hbc : (v.compare w).isLE)
    all_goals first
      | rfl
      | exact absurd hab Bool.false_ne_true
      | exact absurd hbc Bool.false_ne_true

/-- Slots that compare equal are equal. -/
instance : LawfulEqCmp compareSlots where
  compare_self := ReflCmp.compare_self
  eq_of_compare {a b} h := by
    cases a <;> cases b
    case none.none => rfl
    case some.some v w =>
      have hvalue : v.compare w = .eq := h
      rw [LawfulEqCmp.eq_of_compare hvalue]
    all_goals cases h

/-! ## Rows -/

/-- An order is an order in both directions. -/
theorem transCmp_apply {α : Type} (direction : Direction) (cmp : α → α → Ordering) [TransCmp cmp] :
    TransCmp fun a b => direction.apply (cmp a b) := by
  cases direction with
  | asc => exact inferInstanceAs (TransCmp cmp)
  | desc =>
    have hswap : (fun a b => Direction.desc.apply (cmp a b)) = fun a b => cmp b a :=
      funext fun a => funext fun b => OrientedCmp.eq_swap.symm
    rw [hswap]
    exact TransCmp.opposite

variable [Row ρ]

/-- The order of slots in one column, as an order of rows. -/
instance (column : Column) : TransCmp fun a b : ρ => compareSlots (Row.field a column) (Row.field b column) where
  eq_swap := OrientedCmp.eq_swap
  isLE_trans := TransCmp.isLE_trans

/-- The order of rows by one column after another is an order. -/
theorem transCmp_compareBy (fields : List (Column × Direction)) : TransCmp fun a b : ρ => compareBy a b fields := by
  induction fields with
  | nil =>
    have hswap : OrientedCmp fun a b : ρ => compareBy a b [] := ⟨rfl⟩
    exact ⟨fun _ _ => rfl⟩
  | cons field fields ih =>
    have hfirst := transCmp_apply field.2 fun a b : ρ => compareSlots (Row.field a field.1) (Row.field b field.1)
    exact inferInstanceAs (TransCmp (compareLex _ _))

/-- Every ordering orders rows. -/
instance (order : RowOrder) : TransCmp (order.compare (ρ := ρ)) :=
  transCmp_compareBy order.fields

/-- Rows compare equal when they hold the same in every column. -/
theorem compare_eq_eq_iff {order : RowOrder} {a b : ρ} :
    order.compare a b = .eq ↔ ∀ field ∈ order.fields, Row.field a field.1 = Row.field b field.1 := by
  obtain ⟨fields⟩ := order
  rw [compare]
  induction fields with
  | nil =>
    constructor
    · intro _ field hfield
      cases hfield
    · intro _
      rfl
  | cons field fields ih =>
    rw [compareBy, Ordering.then_eq_eq, Direction.apply_eq_eq_iff, LawfulEqCmp.compare_eq_iff_eq, ih, List.forall_mem_cons]

/-! ## Sorting -/

theorem sort_perm (order : RowOrder) (rows : List ρ) : (order.sort rows).Perm rows :=
  List.mergeSort_perm rows _

/-- Of two rows one is not behind the other. -/
theorem isLE_or_isLE (order : RowOrder) (a b : ρ) : ((order.compare a b).isLE || (order.compare b a).isLE) = true := by
  have hswap : order.compare b a = (order.compare a b).swap := OrientedCmp.eq_swap
  rw [hswap]
  cases order.compare a b <;> rfl

theorem pairwise_sort (order : RowOrder) (rows : List ρ) :
    (order.sort rows).Pairwise fun a b => (order.compare a b).isLE = true :=
  List.pairwise_mergeSort (fun _ _ _ => TransCmp.isLE_trans) (isLE_or_isLE order) rows

theorem sort_of_pairwise {order : RowOrder} {rows : List ρ} (h : rows.Pairwise fun a b => (order.compare a b).isLE = true) :
    order.sort rows = rows :=
  List.mergeSort_of_pairwise h

/-- Rows no two of which compare equal are in strict order once they are sorted. -/
theorem pairwise_lt_sort {order : RowOrder} {rows : List ρ} (h : rows.Pairwise fun a b => order.compare a b ≠ .eq) :
    (order.sort rows).Pairwise fun a b => order.compare a b = .lt := by
  have hne : (order.sort rows).Pairwise fun a b => order.compare a b ≠ .eq := by
    refine (order.sort_perm rows).symm.pairwise h ?_
    intro a b hab hba
    exact hab (OrientedCmp.eq_symm hba)
  refine (pairwise_sort order rows).imp₂ ?_ hne
  intro a b hle hne
  cases hcompare : order.compare a b with
  | lt => rfl
  | eq => exact absurd hcompare hne
  | gt => rw [hcompare] at hle; cases hle

/-- Rows in strict order are told by what they are: two lists of the same rows are the same. -/
theorem eq_of_pairwise_lt {order : RowOrder} {rows rows' : List ρ} (h : rows.Pairwise fun a b => order.compare a b = .lt)
    (h' : rows'.Pairwise fun a b => order.compare a b = .lt) (hmem : ∀ a, a ∈ rows ↔ a ∈ rows') : rows = rows' := by
  have hirrefl : ∀ a b : ρ, order.compare a b = .lt → a ≠ b := by
    rintro a _ hlt rfl
    exact OrientedCmp.not_lt_of_lt hlt hlt
  have hperm : rows.Perm rows' :=
    (List.perm_ext_iff_of_nodup (h.imp (hirrefl _ _)) (h'.imp (hirrefl _ _))).2 hmem
  refine hperm.eq_of_pairwise ?_ h h'
  intro a b _ _ hab hba
  exact absurd hab (OrientedCmp.not_lt_of_lt hba)

/-- Rows no two of which compare equal are sorted alike wherever they stood. -/
theorem sort_eq_of_perm {order : RowOrder} {rows rows' : List ρ} (hperm : rows.Perm rows')
    (h : rows.Pairwise fun a b => order.compare a b ≠ .eq) : order.sort rows = order.sort rows' := by
  have h' : rows'.Pairwise fun a b => order.compare a b ≠ .eq := by
    refine hperm.pairwise h ?_
    intro a b hab hba
    exact hab (OrientedCmp.eq_symm hba)
  refine eq_of_pairwise_lt (pairwise_lt_sort h) (pairwise_lt_sort h') ?_
  intro a
  rw [(order.sort_perm rows).mem_iff, (order.sort_perm rows').mem_iff, hperm.mem_iff]

end RowOrder

end Keyset
