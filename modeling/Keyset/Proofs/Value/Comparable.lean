import Keyset.Proofs.Boundary.RoundTrip
import Keyset.Proofs.Value.Order

/-!
# Comparable values

The comparison that knows only values of one kind agrees with the total order, but for the two zeros
(`Value.compare_of_compare?`). A value is cut to one that is no later (`Value.cut_isLE`), and a cursor carries no less than that
(`Value.cut_isLE_carried`); values that are `Orderly` are all comparable and, but for leap seconds inside a minute, carried as they are.
-/

namespace Keyset

open Std

/-! ## Zeros -/

/-- The zero without a sign. -/
def Number.zero : Number :=
  ofMagnitude false 0

/-- The zero with a sign. -/
def Number.negativeZero : Number :=
  ofMagnitude true 0

namespace Number

/-- A lesser value has a lesser word. -/
theorem totalKey_lt {x y : Number} (h : x.valueKey < y.valueKey) : x.totalKey < y.totalKey := by
  unfold valueKey at h
  unfold totalKey
  cases hx : x.isNegative <;> cases hy : y.isNegative <;>
    simp only [hx, hy, if_true, Bool.false_eq_true, if_false] at h ⊢ <;> omega

/-- Words of one value are equal or the two zeros. -/
theorem eq_or_zeros {x y : Number} (h : x.valueKey = y.valueKey) :
    x = y ∨ (x = zero ∧ y = negativeZero) ∨ (x = negativeZero ∧ y = zero) := by
  rw [← ofMagnitude_magnitude x, ← ofMagnitude_magnitude y]
  unfold valueKey at h
  cases hx : x.isNegative <;> cases hy : y.isNegative <;>
    simp only [hx, hy, if_true, Bool.false_eq_true, if_false] at h
  · have hmagnitude : x.magnitude = y.magnitude := by omega
    rw [hmagnitude]
    exact .inl rfl
  · obtain ⟨hx, hy⟩ : x.magnitude = 0 ∧ y.magnitude = 0 := by omega
    rw [hx, hy]
    exact .inr (.inl ⟨rfl, rfl⟩)
  · obtain ⟨hx, hy⟩ : x.magnitude = 0 ∧ y.magnitude = 0 := by omega
    rw [hx, hy]
    exact .inr (.inr ⟨rfl, rfl⟩)
  · have hmagnitude : x.magnitude = y.magnitude := by omega
    rw [hmagnitude]
    exact .inl rfl

end Number

namespace Value

/-- Two values that are the two zeros. -/
def AreZeros (v w : Value) : Prop :=
  (v = .number .zero ∧ w = .number .negativeZero) ∨ (v = .number .negativeZero ∧ w = .number .zero)

/-! ## The two comparisons -/

/-- Comparable values compare in the total order as they compare by value, unless they are the two zeros. -/
theorem compare_of_compare? {v w : Value} {o : Ordering} (h : v.compare? w = some o) (hzeros : o = .eq → ¬ AreZeros v w) :
    v.compare w = o := by
  cases v <;> cases w
  case text.text => exact Option.some.inj h
  case date.date => exact Option.some.inj h
  case number.number x y =>
    have hkeys : Ord.compare x.valueKey y.valueKey = o := by
      simp only [compare?, Number.compare?] at h
      split at h
      · cases h
      · exact Option.some.inj h
    show Ord.compare x.totalKey y.totalKey = o
    cases o with
    | lt => exact Int.compare_eq_lt.2 (Number.totalKey_lt (Int.compare_eq_lt.1 hkeys))
    | gt => exact Int.compare_eq_gt.2 (Number.totalKey_lt (Int.compare_eq_gt.1 hkeys))
    | eq =>
      rcases Number.eq_or_zeros (Int.compare_eq_eq.1 hkeys) with rfl | ⟨rfl, rfl⟩ | ⟨rfl, rfl⟩
      · exact ReflCmp.compare_self
      · exact absurd (.inl ⟨rfl, rfl⟩) (hzeros rfl)
      · exact absurd (.inr ⟨rfl, rfl⟩) (hzeros rfl)
  all_goals cases h

/-- Values that can be compared: both of one kind, and no NaN. -/
structure Comparable (v w : Value) : Prop where
  kind_eq : v.kind = w.kind
  left_isNaN : ∀ x, v = .number x → x.isNaN = false
  right_isNaN : ∀ x, w = .number x → x.isNaN = false

/-- Values that can be compared compare as in the total order, unless they are the two zeros. -/
theorem Comparable.compare?_eq {v w : Value} (h : v.Comparable w) (hzeros : ¬ AreZeros v w) :
    v.compare? w = some (v.compare w) := by
  obtain ⟨hkind, hv, hw⟩ := h
  have hsome : ∃ o, v.compare? w = some o := by
    cases v <;> cases w
    case text.text => exact ⟨_, rfl⟩
    case date.date => exact ⟨_, rfl⟩
    case number.number x y =>
      simp only [compare?, Number.compare?, hv x rfl, hw y rfl]
      exact ⟨_, rfl⟩
    all_goals cases hkind
  obtain ⟨o, ho⟩ := hsome
  rw [ho, compare_of_compare? ho fun _ => hzeros]

/-! ## What cursors carry -/

/-- A value that is an instant in whole milliseconds, or no instant. -/
def IsWhole (v : Value) : Prop :=
  ∀ t, v = .date t → t.toMillis = t

theorem isWhole_of_kind {v : Value} (h : v.kind ≠ .date) : v.IsWhole := by
  rintro t rfl
  exact absurd rfl h

/-- Nothing of a whole value that is no NaN is finer than a millisecond. -/
theorem cut_eq_self {v : Value} (hwhole : v.IsWhole) (hnumber : ∀ x, v = .number x → x.isNaN = false) : v.cut = v := by
  cases v with
  | text s => rfl
  | number x => rw [cut, hnumber x rfl]; rfl
  | date t => rw [cut, hwhole t rfl]

/-- Whole values that are no NaN and no leap second inside a minute are carried as they are. -/
theorem carried_eq_self {v : Value} (hwhole : v.IsWhole) (hcivil : v.IsCivil) (hnumber : ∀ x, v = .number x → x.isNaN = false) :
    v.carried = v := by
  rw [carried_eq_cut_iff.2 hcivil, cut_eq_self hwhole hnumber]

/-- A number that is no NaN is carried by that number alone. -/
theorem eq_number_of_carried {v : Value} {x : Number} (h : v.carried = .number x) (hx : x.isNaN = false) : v = .number x := by
  cases v with
  | text s => cases h
  | date t => cases h
  | number y =>
    rw [carried, number.injEq] at h
    split at h
    · rw [← h] at hx
      cases hx
    · rw [h]

/-- What carries the two zeros are the two zeros. -/
theorem areZeros_of_carried {v w : Value} (h : AreZeros v w.carried) : AreZeros v w := by
  rcases h with ⟨hv, hw⟩ | ⟨hv, hw⟩
  · exact .inl ⟨hv, eq_number_of_carried hw rfl⟩
  · exact .inr ⟨hv, eq_number_of_carried hw rfl⟩

theorem toMillis_isLE (t : Instant) : (t.toMillis.compare t).isLE = true := by
  rw [Instant.isLE_compare_iff]
  exact .inr ⟨rfl, Nat.div_mul_le_self t.nanos 1000000⟩

/-- Cutting keeps instants in order. -/
theorem toMillis_mono {s t : Instant} (h : (s.compare t).isLE = true) : (s.toMillis.compare t.toMillis).isLE = true := by
  have hcut : ∀ m n : Nat, m ≤ n → m / 1000000 * 1000000 ≤ n / 1000000 * 1000000 := by
    intro m n hle
    exact Nat.mul_le_mul_right 1000000 (Nat.div_le_div_right hle)
  rw [Instant.isLE_compare_iff] at h ⊢
  rcases h with hlt | ⟨heq, hle⟩
  · exact .inl hlt
  · exact .inr ⟨heq, hcut _ _ hle⟩

/-- What a timestamp shows of an instant is no earlier than its milliseconds. -/
theorem toMillis_isLE_carried (t : Instant) : (t.toMillis.compare t.carried).isLE = true := by
  by_cases h : t.IsCivil
  · rw [Instant.carried_of_isCivil h]
    exact ReflCmp.isLE_rfl
  · rw [Instant.isLE_compare_iff, (Instant.carried_of_not_isCivil h).1]
    exact .inl (Int.lt_succ t.seconds)

/-- A value that is no NaN is cut to one that is no later. -/
theorem cut_isLE {v : Value} (hnumber : ∀ x, v = .number x → x.isNaN = false) : (v.cut.compare v).isLE = true := by
  cases v with
  | text s => exact ReflCmp.isLE_rfl
  | number x =>
    have hwhole : (number x).IsWhole := isWhole_of_kind nofun
    rw [cut_eq_self hwhole hnumber]
    exact ReflCmp.isLE_rfl
  | date t => exact toMillis_isLE t

/-- A value is carried as one that is no earlier than it is cut. -/
theorem cut_isLE_carried (v : Value) : (v.cut.compare v.carried).isLE = true := by
  cases v with
  | text s => exact ReflCmp.isLE_rfl
  | number x => exact ReflCmp.isLE_rfl
  | date t => exact toMillis_isLE_carried t

/-- Nothing is comparable with what is carried of a NaN. -/
theorem isNaN_eq_false_of_compare?_carried {v w : Value} {o : Ordering} (h : v.compare? w.carried = some o) :
    ∀ x, w = .number x → x.isNaN = false := by
  rintro x rfl
  cases hx : x.isNaN with
  | false => rfl
  | true =>
    have hnan : Number.nan.isNaN = true := rfl
    rw [carried, hx] at h
    cases v with
    | number y =>
      simp only [compare?, Number.compare?, if_true, hnan, Bool.or_true] at h
      cases h
    | text s => cases h
    | date t => cases h

/-! ## Two comparable values -/

namespace Comparable

theorem of_text (s s' : String) : (Value.text s).Comparable (.text s') := by
  refine ⟨rfl, ?_, ?_⟩ <;> rintro x ⟨⟩

theorem of_date (t t' : Instant) : (Value.date t).Comparable (.date t') := by
  refine ⟨rfl, ?_, ?_⟩ <;> rintro x ⟨⟩

theorem of_number {x y : Number} (hx : x.isNaN = false) (hy : y.isNaN = false) : (Value.number x).Comparable (.number y) := by
  refine ⟨rfl, ?_, ?_⟩
  · rintro x' ⟨⟩
    exact hx
  · rintro y' ⟨⟩
    exact hy

variable {v w : Value}

theorem symm (h : v.Comparable w) : w.Comparable v :=
  ⟨h.kind_eq.symm, h.right_isNaN, h.left_isNaN⟩

/-- A value can be compared with what is carried of another if it can be compared with the other. -/
theorem carried_right (h : v.Comparable w) : v.Comparable w.carried := by
  refine ⟨h.kind_eq.trans w.kind_carried.symm, h.left_isNaN, ?_⟩
  intro x hx
  cases w with
  | text s => cases hx
  | date t => cases hx
  | number y =>
    have hy := h.right_isNaN y rfl
    rw [carried, hy] at hx
    cases hx
    exact hy

/-- A value compares with what is carried of another in the total order as it does by value, unless the two are the two zeros. -/
theorem compare?_carried (h : v.Comparable w) (hzeros : ¬ AreZeros v w) : v.compare? w.carried = some (v.compare w.carried) := by
  refine h.carried_right.compare?_eq ?_
  intro hcarried
  exact hzeros (areZeros_of_carried hcarried)

/-- A value between another and what the other is cut to is cut to the same. -/
theorem cut_eq_of_between (h : v.Comparable w) (hlow : (w.cut.compare v).isLE = true) (hhigh : (v.compare w).isLE = true) :
    v.cut = w.cut := by
  obtain ⟨hkind, -, hw⟩ := h
  cases v <;> cases w
  case text.text => rw [LawfulEqCmp.eq_of_compare (OrientedCmp.isLE_antisymm hhigh hlow)]
  case number.number x y =>
    have hwhole : (number y).IsWhole := isWhole_of_kind nofun
    rw [cut_eq_self hwhole hw] at hlow
    rw [LawfulEqCmp.eq_of_compare (OrientedCmp.isLE_antisymm hhigh hlow)]
  case date.date s t =>
    have hbelow : (t.toMillis.compare s.toMillis).isLE = true := by
      rw [← Instant.toMillis_toMillis t]
      exact toMillis_mono hlow
    exact congrArg date (LawfulEqCmp.eq_of_compare (OrientedCmp.isLE_antisymm (toMillis_mono hhigh) hbelow))
  all_goals cases hkind

end Comparable

/-! ## Orderly values -/

/-- Values of one kind, with no NaN, at most one of the two zeros, and instants in whole milliseconds. -/
structure Orderly (held : Value → Prop) : Prop where
  kind_eq : ∀ v w, held v → held w → v.kind = w.kind
  isNaN_eq_false : ∀ x, held (.number x) → x.isNaN = false
  one_zero : ¬ (held (.number .zero) ∧ held (.number .negativeZero))
  isWhole : ∀ v, held v → v.IsWhole

/-- Texts are orderly. -/
theorem orderly_of_text {held : Value → Prop} (h : ∀ v, held v → ∃ s, v = .text s) : Orderly held where
  kind_eq v w hv hw := by
    obtain ⟨s, rfl⟩ := h v hv
    obtain ⟨s', rfl⟩ := h w hw
    rfl
  isNaN_eq_false x hx := by
    obtain ⟨s, hs⟩ := h _ hx
    cases hs
  one_zero hzeros := by
    obtain ⟨s, hs⟩ := h _ hzeros.1
    cases hs
  isWhole v hv := by
    obtain ⟨s, rfl⟩ := h v hv
    exact isWhole_of_kind nofun

theorem orderly_of_date {held : Value → Prop} (h : ∀ v, held v → ∃ t, v = .date t ∧ t.toMillis = t) : Orderly held where
  kind_eq v w hv hw := by
    obtain ⟨t, rfl, -⟩ := h v hv
    obtain ⟨t', rfl, -⟩ := h w hw
    rfl
  isNaN_eq_false x hx := by
    obtain ⟨t, ht, -⟩ := h _ hx
    cases ht
  one_zero hzeros := by
    obtain ⟨t, ht, -⟩ := h _ hzeros.1
    cases ht
  isWhole v hv := by
    obtain ⟨t, rfl, hwhole⟩ := h v hv
    rintro t' ⟨⟩
    exact hwhole

namespace Orderly

variable {held : Value → Prop}

theorem isNaN_eq_false_of_eq (h : Orderly held) {v : Value} (hv : held v) : ∀ x, v = .number x → x.isNaN = false := by
  rintro x rfl
  exact h.isNaN_eq_false x hv

/-- Any two orderly values can be compared. -/
theorem comparable (h : Orderly held) {v w : Value} (hv : held v) (hw : held w) : v.Comparable w :=
  ⟨h.kind_eq v w hv hw, h.isNaN_eq_false_of_eq hv, h.isNaN_eq_false_of_eq hw⟩

theorem not_areZeros (h : Orderly held) {v w : Value} (hv : held v) (hw : held w) : ¬ AreZeros v w := by
  rintro (⟨rfl, rfl⟩ | ⟨rfl, rfl⟩)
  · exact h.one_zero ⟨hv, hw⟩
  · exact h.one_zero ⟨hw, hv⟩

/-- Orderly values are carried as they are, unless they are leap seconds inside a minute. -/
theorem carried_eq_self (h : Orderly held) {v : Value} (hv : held v) (hcivil : v.IsCivil) : v.carried = v :=
  Value.carried_eq_self (h.isWhole v hv) hcivil (h.isNaN_eq_false_of_eq hv)

end Orderly

end Value

end Keyset
