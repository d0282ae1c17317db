import Keyset.Proofs.Boundary.Seek

/-!
# The order of boundaries

Rows are in the order of their boundaries (`Boundary.compare_rows`), and the condition of a cursor asks for rows whose boundaries are
behind the one that the token carries (`Boundary.holds_seek_iff_lt`). A boundary without a leap second inside a minute is carried on
one known side of it (`Boundary.carried_lt_of_lt`, `Boundary.lt_of_carried_lt`), and only what has a sort value in the same millisecond
is between the two (`Boundary.cut_value_eq`).
-/

namespace Keyset

open Std

/-- In descending order the lesser value comes later. -/
theorem Direction.desc_isLE_iff {v w : Value} : (Direction.desc.apply (v.compare w)).isLE = true ↔ (w.compare v).isLE = true := by
  have hswap : w.compare v = (v.compare w).swap := OrientedCmp.eq_swap
  rw [hswap]
  rfl

namespace Boundary

/-- The order of boundaries in a direction: by the sort value, then by the identity. -/
def compare (direction : Direction) (a b : Boundary) : Ordering :=
  (direction.apply (a.value.compare b.value)).then (direction.apply (a.id.compare b.id))

/-- The order of values in a direction, as an order of boundaries. -/
theorem transCmp_apply_on (direction : Direction) (part : Boundary → Value) :
    TransCmp fun a b => direction.apply ((part a).compare (part b)) := by
  have hswap : OrientedCmp fun a b : Boundary => (part a).compare (part b) := ⟨OrientedCmp.eq_swap⟩
  have hpart : TransCmp fun a b : Boundary => (part a).compare (part b) := ⟨TransCmp.isLE_trans⟩
  exact RowOrder.transCmp_apply direction _

/-- The order of boundaries is an order. -/
instance (direction : Direction) : TransCmp (compare direction) :=
  have := transCmp_apply_on direction value
  have := transCmp_apply_on direction id
  inferInstanceAs (TransCmp (compareLex (fun a b : Boundary => direction.apply (a.value.compare b.value))
    (fun a b : Boundary => direction.apply (a.id.compare b.id))))

variable {direction : Direction} {a b : Boundary}

/-- A boundary is not behind another when neither of its values is. -/
theorem isLE_of_isLE (hvalue : (direction.apply (a.value.compare b.value)).isLE = true)
    (hid : (direction.apply (a.id.compare b.id)).isLE = true) : (compare direction a b).isLE = true := by
  rw [compare, Ordering.isLE_then_iff_and]
  exact ⟨hvalue, .inr hid⟩

theorem value_isLE (h : (compare direction a b).isLE = true) : (direction.apply (a.value.compare b.value)).isLE = true :=
  (Ordering.isLE_then_iff_and.1 h).1

/-! ## Rows -/

variable {ρ : Type} [Row ρ] {column identity : Column} {r s : ρ}

/-- Rows are in the order of their boundaries. -/
theorem compare_rows (hr : ofRow? column identity r = some a) (hs : ofRow? column identity s = some b) :
    (Query.cursorOrder column identity direction).compare r s = compare direction a b := by
  obtain ⟨hra, hrid⟩ := ofRow?_eq_some hr
  obtain ⟨hsb, hsid⟩ := ofRow?_eq_some hs
  rw [compare_cursorOrder, hra, hsb, hrid, hsid]
  rfl

/-- Boundaries whose values can be compared one by one. -/
structure Comparable (a b : Boundary) : Prop where
  value : a.value.Comparable b.value
  id : a.id.Comparable b.id

/-- Boundaries that hold the two zeros in one column. -/
def HaveZeros (a b : Boundary) : Prop :=
  Value.AreZeros a.value b.value ∨ Value.AreZeros a.id b.id

/-- A row meets the condition read from a token when its boundary is behind the one that the token carries. -/
theorem holds_seek_iff_lt (hs : ofRow? column identity s = some b) (h : b.Comparable a) (hzeros : ¬ b.HaveZeros a) :
    (a.carried.seek column identity direction).holds s = true ↔ compare direction a.carried b = .lt := by
  obtain ⟨hvalue, hid⟩ := ofRow?_eq_some hs
  have hvalues := h.value.compare?_carried (fun hboth => hzeros (.inl hboth))
  have hids := h.id.compare?_carried (fun hboth => hzeros (.inr hboth))
  have hsame : a.value.carried.compare b.value = .eq ↔ b.value.compare a.value.carried = .eq := OrientedCmp.eq_comm
  rw [holds_seek, compare, Ordering.then_eq_lt, hvalue, hid]
  simp only [carried, hvalues, hids, apply_eq_lt_iff, Direction.apply_eq_eq_iff, Option.some.injEq, exists_eq_left', hsame]

/-- A token carries a boundary with whole values that are no NaN and no leap second inside a minute as it is. -/
theorem carried_eq_self (h : b.Comparable a) (hwhole : a.value.IsWhole ∧ a.id.IsWhole) (hcivil : a.IsCivil) : a.carried = a := by
  rw [carried, Value.carried_eq_self hwhole.1 hcivil.1 h.value.right_isNaN,
    Value.carried_eq_self hwhole.2 hcivil.2 h.id.right_isNaN]

/-- A row meets the condition read from the token of another when it stands behind that row, if the token carries the values as they
are and the rows do not hold the two zeros in one column. -/
theorem holds_seek_iff_row_lt (hr : ofRow? column identity r = some a) (hs : ofRow? column identity s = some b)
    (h : b.Comparable a) (hwhole : a.value.IsWhole ∧ a.id.IsWhole) (hcivil : a.IsCivil) (hzeros : ¬ b.HaveZeros a) :
    (a.carried.seek column identity direction).holds s = true ↔
      (Query.cursorOrder column identity direction).compare r s = .lt := by
  rw [holds_seek_iff_lt hs h hzeros, carried_eq_self h hwhole hcivil, compare_rows hr hs]

/-! ## What tokens carry -/

/-- In ascending order a boundary is cut to one that is not behind it, so what is behind the boundary is behind that, too. -/
theorem carried_lt_of_lt (h : b.Comparable a) (hcivil : a.IsCivil) (hlt : compare .asc a b = .lt) :
    compare .asc a.carried b = .lt := by
  have hcut : (compare .asc a.cut a).isLE = true :=
    isLE_of_isLE (Value.cut_isLE h.value.right_isNaN) (Value.cut_isLE h.id.right_isNaN)
  rw [carried_eq_cut_iff.2 hcivil]
  exact TransCmp.lt_of_isLE_of_lt hcut hlt

/-- In descending order a boundary is not behind what it is cut to, so what is behind that is behind the boundary, too. -/
theorem lt_of_carried_lt (h : b.Comparable a) (hcivil : a.IsCivil) (hlt : compare .desc a.carried b = .lt) :
    compare .desc a b = .lt := by
  have hcut : (compare .desc a a.cut).isLE = true := by
    refine isLE_of_isLE ?_ ?_
    · rw [Direction.desc_isLE_iff]
      exact Value.cut_isLE h.value.right_isNaN
    · rw [Direction.desc_isLE_iff]
      exact Value.cut_isLE h.id.right_isNaN
  rw [carried_eq_cut_iff.2 hcivil] at hlt
  exact TransCmp.lt_of_isLE_of_lt hcut hlt

/-- What is not behind a boundary is before it or equal to it. -/
theorem isLE_of_ne_lt (h : compare direction a b ≠ .lt) : (compare direction b a).isLE = true := by
  have hswap : compare direction b a = (compare direction a b).swap := OrientedCmp.eq_swap
  rw [hswap]
  cases hcompare : compare direction a b with
  | lt => exact absurd hcompare h
  | eq => rfl
  | gt => rfl

/-- A boundary that is behind one of another and what a token carries of that, but not behind both, has a sort value in the same
millisecond as the other. -/
theorem cut_value_eq (h : b.Comparable a) (hcivil : a.IsCivil)
    (hside : ¬ (compare direction a.carried b = .lt ↔ compare direction a b = .lt)) : b.value.cut = a.value.cut := by
  have hvalue : a.carried.value = a.value.cut := Value.carried_eq_cut_iff.2 hcivil.1
  by_cases hlt : compare direction a b = .lt
  · have hcarried : compare direction a.carried b ≠ .lt := fun hcarried => hside (iff_of_true hcarried hlt)
    cases direction with
    | asc => exact absurd (carried_lt_of_lt h hcivil hlt) hcarried
    | desc =>
      have hlow := Direction.desc_isLE_iff.1 (value_isLE (isLE_of_ne_lt hcarried))
      have hhigh := Direction.desc_isLE_iff.1 (value_isLE (Ordering.isLE_of_eq_lt hlt))
      rw [hvalue] at hlow
      exact h.value.cut_eq_of_between hlow hhigh
  · have hcarried : compare direction a.carried b = .lt := by
      by_contra hcarried
      exact hside (iff_of_false hcarried hlt)
    cases direction with
    | asc =>
      have hlow := value_isLE (Ordering.isLE_of_eq_lt hcarried)
      have hhigh := value_isLE (isLE_of_ne_lt hlt)
      rw [hvalue] at hlow
      exact h.value.cut_eq_of_between hlow hhigh
    | desc => exact absurd (lt_of_carried_lt h hcivil hcarried) hlt

end Boundary

end Keyset
