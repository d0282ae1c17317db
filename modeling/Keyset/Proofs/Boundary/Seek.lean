import Keyset.Proofs.Predicate
import Keyset.Proofs.RowOrder
import Keyset.Proofs.Value.Comparable
import Keyset.Query

/-!
# Seeking behind a row

The condition that is read from the token of a row against the order of rows. Rows that meet it stand behind the row, whatever
the other columns hold (`Boundary.lt_of_seek`).
-/

namespace Keyset

open Std

variable [Row ρ]

/-- Whether one of some rows holds a value in a column. -/
def Column.Holds (column : Column) (rows : ρ → Prop) (v : Value) : Prop :=
  ∃ r, rows r ∧ Row.field r column = some v

/-- Rows of whose boundaries none holds a leap second inside a minute. -/
def Civil (rows : ρ → Prop) (column identity : Column) : Prop :=
  ∀ r boundary, rows r → Boundary.ofRow? column identity r = some boundary → boundary.IsCivil

namespace Boundary

/-! ## One column -/

/-- A value is behind another in the direction when it compares with it as the operator asks. -/
theorem apply_eq_lt_iff {direction : Direction} {v w : Value} :
    direction.apply (w.compare v) = .lt ↔ v.compare w = (behind direction).wanted := by
  cases direction with
  | asc =>
    have hgt : v.compare w = .gt ↔ w.compare v = .lt := OrientedCmp.gt_iff_lt
    exact hgt.symm
  | desc =>
    have hswap : v.compare w = (w.compare v).swap := OrientedCmp.eq_swap
    rw [hswap]
    rfl

/-- What keeps a cursor from carrying a value that is before the one it stands for: an ascending cursor must not cut it, a
descending one must not carry a leap second as the second after it. -/
structure Forward (direction : Direction) (v : Value) : Prop where
  isWhole : direction = .asc → v.IsWhole
  isCivil : direction = .desc → v.IsCivil

/-- What is carried of a value that is no NaN is not before it. -/
theorem Forward.isLE_carried {direction : Direction} {w : Value} (h : Forward direction w)
    (hnumber : ∀ x, w = .number x → x.isNaN = false) : (direction.apply (w.compare w.carried)).isLE = true := by
  cases direction with
  | asc =>
    have hle := Value.cut_isLE_carried w
    rw [Value.cut_eq_self (h.isWhole rfl) hnumber] at hle
    exact hle
  | desc =>
    have hle := Value.cut_isLE hnumber
    rw [← Value.carried_eq_cut_iff.2 (h.isCivil rfl), (OrientedCmp.eq_swap : w.carried.compare w = _)] at hle
    exact hle

/-- A value behind what is carried of another is behind the other. -/
theorem apply_eq_lt {direction : Direction} {v w : Value} (hforward : Forward direction w)
    (h : v.compare? w.carried = some (behind direction).wanted) : direction.apply (w.compare v) = .lt := by
  have hle := hforward.isLE_carried (Value.isNaN_eq_false_of_compare?_carried h)
  have hlt : direction.apply (w.carried.compare v) = .lt := by
    rw [apply_eq_lt_iff]
    refine Value.compare_of_compare? h ?_
    intro heq
    cases direction <;> cases heq
  have htrans := RowOrder.transCmp_apply direction Value.compare
  exact htrans.lt_of_isLE_of_lt hle hlt

/-- A value equal to what is carried of another is not before the other, unless they are the two zeros. -/
theorem apply_isLE {direction : Direction} {v w : Value} (hforward : Forward direction w) (hzeros : ¬ Value.AreZeros v w)
    (h : v.compare? w.carried = some .eq) : (direction.apply (w.compare v)).isLE = true := by
  have heq : v.compare w.carried = .eq := by
    refine Value.compare_of_compare? h ?_
    intro _ hcarried
    exact hzeros (Value.areZeros_of_carried hcarried)
  rw [LawfulEqCmp.eq_of_compare heq]
  exact hforward.isLE_carried (Value.isNaN_eq_false_of_compare?_carried h)

/-! ## Two columns -/

/-- The order of a cursor: the sort column, then the identity. -/
theorem compare_cursorOrder (column identity : Column) (direction : Direction) (a b : ρ) :
    (Query.cursorOrder column identity direction).compare a b =
      (direction.apply (RowOrder.compareSlots (Row.field a column) (Row.field b column))).then
        (direction.apply (RowOrder.compareSlots (Row.field a identity) (Row.field b identity))) := by
  simp only [RowOrder.compare, Query.cursorOrder, RowOrder.compareBy, Ordering.then_eq]

/-- What a row holds that meets the condition of a boundary. -/
theorem holds_seek {boundary : Boundary} {column identity : Column} {direction : Direction} {r : ρ} :
    (boundary.seek column identity direction).holds r = true ↔ ∃ v, Row.field r column = some v ∧
      (v.compare? boundary.value = some (behind direction).wanted ∨ v.compare? boundary.value = some .eq ∧
        ∃ id, Row.field r identity = some id ∧ id.compare? boundary.id = some (behind direction).wanted) := by
  simp only [seek, Predicate.holds_disj, Predicate.holds_conj, List.any_cons, List.any_nil, List.all_cons, List.all_nil,
    Bool.or_false, Bool.and_true, Bool.or_eq_true, Bool.and_eq_true, Predicate.holds_compare]
  constructor
  · rintro (⟨v, hv, hbehind⟩ | ⟨⟨v, hv, heq⟩, hid⟩)
    · exact ⟨v, hv, .inl hbehind⟩
    · exact ⟨v, hv, .inr ⟨heq, hid⟩⟩
  · rintro ⟨v, hv, hbehind | ⟨heq, hid⟩⟩
    · exact .inl ⟨v, hv, hbehind⟩
    · exact .inr ⟨⟨v, hv, heq⟩, hid⟩

/-- A row that gives a boundary holds its values. -/
theorem ofRow?_eq_some {column identity : Column} {r : ρ} {boundary : Boundary} (h : ofRow? column identity r = some boundary) :
    Row.field r column = some boundary.value ∧ Row.field r identity = some boundary.id := by
  unfold ofRow? at h
  split at h
  · rename_i value id hvalue hid
    cases h
    exact ⟨hvalue, hid⟩
  · cases h

/-- Rows without instants in two columns have boundaries without leap seconds. -/
theorem civil_of_kind {rows : ρ → Prop} {column identity : Column}
    (h : ∀ r, rows r → ∀ v, Row.field r column = some v ∨ Row.field r identity = some v → v.kind ≠ .date) :
    Civil rows column identity := by
  intro r boundary hr hb
  obtain ⟨hvalue, hid⟩ := ofRow?_eq_some hb
  exact ⟨Value.isCivil_of_kind (h r hr _ (.inl hvalue)), Value.isCivil_of_kind (h r hr _ (.inr hid))⟩

/-- A row that meets the condition read from the token of another row stands behind it, if the sort column does not hold the two
zeros and the cursor does not carry less than it stands for. -/
theorem lt_of_seek {boundary : Boundary} {column identity : Column} {direction : Direction} {a r : ρ}
    (ha : ofRow? column identity a = some boundary)
    (hforward : Forward direction boundary.value ∧ Forward direction boundary.id)
    (hzeros : ∀ v, Row.field r column = some v → ¬ Value.AreZeros v boundary.value)
    (h : (boundary.carried.seek column identity direction).holds r = true) :
    (Query.cursorOrder column identity direction).compare a r = .lt := by
  obtain ⟨hvalue, hid⟩ := ofRow?_eq_some ha
  obtain ⟨v, hv, hbehind | ⟨heq, id, hrid, hbehind⟩⟩ := holds_seek.1 h
  · have hlt : direction.apply (boundary.value.compare v) = .lt := apply_eq_lt hforward.1 hbehind
    rw [compare_cursorOrder, hvalue, hv, RowOrder.compareSlots, hlt]
    rfl
  · have hle := apply_isLE hforward.1 (hzeros v hv) heq
    have hlt : direction.apply (boundary.id.compare id) = .lt := apply_eq_lt hforward.2 hbehind
    rw [compare_cursorOrder, hvalue, hv, hid, hrid, RowOrder.compareSlots, RowOrder.compareSlots, hlt]
    cases hfirst : direction.apply (boundary.value.compare v) with
    | lt => rfl
    | eq => rfl
    | gt => rw [hfirst] at hle; cases hle

end Boundary

/-- The condition of a cursor is that of the boundary it is read as. -/
theorem Query.seekOf_some {column identity : Column} {direction : Direction} {token : String} {boundary : Boundary}
    (h : Boundary.ofToken token = .ok boundary) :
    seekOf column identity direction (some token) = .ok (some (boundary.seek column identity direction)) := by
  rw [seekOf, h]
  rfl

end Keyset
