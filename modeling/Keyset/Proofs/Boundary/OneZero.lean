import Keyset.Proofs.Boundary.Order

/-!
# The two zeros taken for one

The condition of a cursor takes the two zeros for one, the order of rows does not. With one zero in all values the two agree for
whatever rows: a row that meets the condition stands behind the row of the cursor (`Boundary.oneZero_lt_of_seek`). Among rows that
can be compared those are all rows that stand behind it (`Boundary.holds_seek_iff_oneZero_lt`).
-/

namespace Keyset

/-! ## Values -/

namespace Number

/-- The number with the zero without a sign for both zeros. -/
def oneZero (x : Number) : Number :=
  if x = negativeZero then zero else x

/-- The two zeros have one value, which is no NaN. -/
theorem negativeZero_spec :
    negativeZero.valueKey = zero.valueKey ∧ negativeZero.isNaN = zero.isNaN ∧ nan ≠ negativeZero ∧ zero ≠ negativeZero := by
  decide

theorem valueKey_oneZero (x : Number) : x.oneZero.valueKey = x.valueKey := by
  rw [oneZero]
  split
  · rename_i hx
    rw [hx, negativeZero_spec.1]
  · rfl

theorem isNaN_oneZero (x : Number) : x.oneZero.isNaN = x.isNaN := by
  rw [oneZero]
  split
  · rename_i hx
    rw [hx, negativeZero_spec.2.1]
  · rfl

/-- With one zero there is no zero with a sign. -/
theorem oneZero_ne (x : Number) : x.oneZero ≠ negativeZero := by
  rw [oneZero]
  split
  · exact negativeZero_spec.2.2.2
  · rename_i hx
    exact hx

end Number

namespace Value

/-- The value with the zero without a sign for both zeros. -/
def oneZero : Value → Value
  | .number x => .number x.oneZero
  | v => v

/-- Values compare with one zero as they do with two. -/
theorem compare?_oneZero (v w : Value) : v.oneZero.compare? w.oneZero = v.compare? w := by
  cases v <;> cases w
  case number.number x y =>
    simp only [oneZero, compare?, Number.compare?, Number.valueKey_oneZero, Number.isNaN_oneZero]
  all_goals rfl

/-- Cursors carry the zeros as they carry other numbers. -/
theorem carried_oneZero (v : Value) : v.oneZero.carried = v.carried.oneZero := by
  cases v with
  | text s => rfl
  | date t => rfl
  | number x =>
    simp only [oneZero, carried, Number.isNaN_oneZero]
    split
    · rw [Number.oneZero, if_neg Number.negativeZero_spec.2.2.1]
    · rfl

theorem kind_oneZero (v : Value) : v.oneZero.kind = v.kind := by
  cases v <;> rfl

/-- With one zero a value is no NaN when it is none with two. -/
theorem isNaN_eq_false_of_oneZero {v : Value} (h : ∀ x, v = .number x → x.isNaN = false) :
    ∀ x, v.oneZero = .number x → x.isNaN = false := by
  intro x hx
  cases v with
  | text s => cases hx
  | date t => cases hx
  | number y =>
    cases hx
    rw [Number.isNaN_oneZero]
    exact h y rfl

theorem Comparable.oneZero {v w : Value} (h : v.Comparable w) : v.oneZero.Comparable w.oneZero := by
  refine ⟨?_, isNaN_eq_false_of_oneZero h.left_isNaN, isNaN_eq_false_of_oneZero h.right_isNaN⟩
  rw [kind_oneZero, kind_oneZero, h.kind_eq]

theorem IsWhole.oneZero {v : Value} (h : v.IsWhole) : v.oneZero.IsWhole := by
  cases v with
  | text s => exact h
  | date t => exact h
  | number x => exact isWhole_of_kind nofun

theorem IsCivil.oneZero {v : Value} (h : v.IsCivil) : v.oneZero.IsCivil := by
  cases v with
  | text s => exact h
  | date t => exact h
  | number x => exact isCivil_of_kind nofun

/-- With one zero no values are the two zeros. -/
theorem not_areZeros_oneZero (v w : Value) : ¬ AreZeros v.oneZero w.oneZero := by
  have hne : ∀ u : Value, u.oneZero ≠ .number .negativeZero := by
    intro u hu
    cases u with
    | text s => cases hu
    | date t => cases hu
    | number x => exact x.oneZero_ne (number.inj hu)
  rintro (⟨-, hw⟩ | ⟨hv, -⟩)
  · exact hne w hw
  · exact hne v hv

end Value

/-! ## Rows -/

/-- A row that holds the zero without a sign for both zeros. -/
structure OneZero (ρ : Type) where
  row : ρ

/-- What the row holds, with one zero. -/
instance [Row ρ] : Row (OneZero ρ) where
  field r column := (Row.field r.row column).map Value.oneZero

namespace Boundary

/-- The boundary with one zero. -/
def oneZero (boundary : Boundary) : Boundary :=
  ⟨boundary.value.oneZero, boundary.id.oneZero⟩

variable [Row ρ] {boundary : Boundary} {column identity : Column} {direction : Direction} {a r : ρ}

/-- A row gives its boundary with one zero as it does with two. -/
theorem ofRow?_oneZero (h : ofRow? column identity r = some boundary) :
    ofRow? column identity (OneZero.mk r) = some boundary.oneZero := by
  obtain ⟨hvalue, hid⟩ := ofRow?_eq_some h
  have hfield : ∀ column : Column, Row.field (OneZero.mk r) column = (Row.field r column).map Value.oneZero := fun _ => rfl
  rw [ofRow?, hfield, hfield, hvalue, hid]
  rfl

/-- Cursors carry boundaries with one zero as they carry those with two. -/
theorem carried_oneZero (boundary : Boundary) : boundary.oneZero.carried = boundary.carried.oneZero := by
  rw [carried, oneZero, Value.carried_oneZero, Value.carried_oneZero]
  rfl

/-- A row meets the condition of a boundary with one zero when it does with two. -/
theorem holds_seek_oneZero :
    (boundary.oneZero.seek column identity direction).holds (OneZero.mk r) = true ↔
      (boundary.seek column identity direction).holds r = true := by
  have hfield : ∀ column : Column, Row.field (OneZero.mk r) column = (Row.field r column).map Value.oneZero := fun _ => rfl
  simp only [holds_seek, hfield, oneZero, Option.map_eq_some_iff]
  constructor
  · rintro ⟨-, ⟨v, hv, rfl⟩, hcases⟩
    rw [Value.compare?_oneZero] at hcases
    refine ⟨v, hv, hcases.imp_right ?_⟩
    rintro ⟨heq, -, ⟨id, hid, rfl⟩, hbehind⟩
    rw [Value.compare?_oneZero] at hbehind
    exact ⟨heq, id, hid, hbehind⟩
  · rintro ⟨v, hv, hcases⟩
    refine ⟨v.oneZero, ⟨v, hv, rfl⟩, ?_⟩
    rw [Value.compare?_oneZero]
    refine hcases.imp_right ?_
    rintro ⟨heq, id, hid, hbehind⟩
    refine ⟨heq, id.oneZero, ⟨id, hid, rfl⟩, ?_⟩
    rw [Value.compare?_oneZero]
    exact hbehind

theorem Forward.oneZero {v : Value} (h : Forward direction v) : Forward direction v.oneZero where
  isWhole hasc := (h.isWhole hasc).oneZero
  isCivil hdesc := (h.isCivil hdesc).oneZero

/-- A row that meets the condition read from the token of another row stands behind it, when the zeros are taken for one and the
cursor does not carry less than it stands for. -/
theorem oneZero_lt_of_seek (ha : ofRow? column identity a = some boundary)
    (hforward : Forward direction boundary.value ∧ Forward direction boundary.id)
    (h : (boundary.carried.seek column identity direction).holds r = true) :
    (Query.cursorOrder column identity direction).compare (OneZero.mk a) (OneZero.mk r) = .lt := by
  refine lt_of_seek (ofRow?_oneZero ha) ⟨hforward.1.oneZero, hforward.2.oneZero⟩ ?_ ?_
  · intro v hv
    obtain ⟨w, -, rfl⟩ := Option.map_eq_some_iff.1 hv
    exact Value.not_areZeros_oneZero w boundary.value
  · rw [carried_oneZero]
    exact holds_seek_oneZero.2 h

/-- With the two zeros taken for one, a row meets the condition read from the token of another when it stands behind that row, if the
token carries the values as they are. -/
theorem holds_seek_iff_oneZero_lt {own : Boundary} (ha : ofRow? column identity a = some boundary)
    (hr : ofRow? column identity r = some own) (h : own.Comparable boundary)
    (hwhole : boundary.value.IsWhole ∧ boundary.id.IsWhole) (hcivil : boundary.IsCivil) :
    (boundary.carried.seek column identity direction).holds r = true ↔
      (Query.cursorOrder column identity direction).compare (OneZero.mk a) (OneZero.mk r) = .lt := by
  have hzeros : ¬ own.oneZero.HaveZeros boundary.oneZero := by
    rintro (hboth | hboth)
    · exact Value.not_areZeros_oneZero _ _ hboth
    · exact Value.not_areZeros_oneZero _ _ hboth
  have hcomparable : own.oneZero.Comparable boundary.oneZero := ⟨h.value.oneZero, h.id.oneZero⟩
  rw [← holds_seek_oneZero, ← carried_oneZero]
  exact holds_seek_iff_row_lt (ofRow?_oneZero ha) (ofRow?_oneZero hr) hcomparable ⟨hwhole.1.oneZero, hwhole.2.oneZero⟩
    ⟨hcivil.1.oneZero, hcivil.2.oneZero⟩ hzeros

end Boundary

end Keyset
