import Mathlib
import Keyset.Number.Rounding

/-!
# Rounding gives back what can be represented

`nearest` depends on the value of its quotient alone (`nearest_mul_right`), and the value of a finite magnitude is rounded to
that magnitude (`nearest_quotient`). Both rest on `log2Quotient_lt_iff`, which says that `log2Quotient` is the floor of the
binary logarithm.
-/

namespace Keyset.Number

/-! ## The binary logarithm of a quotient -/

/-- The test inside `log2Quotient` compares the quotient with a power of two. -/
theorem scaled_lt_scaled_iff (num : Nat) {den : Nat} (hden : 0 < den) (e : Int) :
    num * Nat.pow 2 (-e).toNat < den * Nat.pow 2 e.toNat ↔ (num : ℚ) / den < 2 ^ e := by
  have hd : (0 : ℚ) < den := by exact_mod_cast hden
  rw [div_lt_iff₀ hd]
  obtain ⟨n, rfl | rfl⟩ := e.eq_nat_or_neg
  · rw [Int.toNat_natCast, Int.toNat_neg_natCast, zpow_natCast, mul_comm ((2 : ℚ) ^ n)]
    simp only [Nat.pow_eq, pow_zero, mul_one]
    exact_mod_cast Iff.rfl
  · have hp : (0 : ℚ) < 2 ^ n := by positivity
    rw [neg_neg, Int.toNat_natCast, Int.toNat_neg_natCast, zpow_neg, zpow_natCast, inv_mul_eq_div, lt_div_iff₀ hp]
    simp only [Nat.pow_eq, pow_zero, mul_one]
    exact_mod_cast Iff.rfl

/-- A positive quotient lies between the power of two at `log2Quotient` and the next one. -/
theorem log2Quotient_bounds {num den : Nat} (hnum : 0 < num) (hden : 0 < den) :
    (2 : ℚ) ^ log2Quotient num den ≤ (num : ℚ) / den ∧ (num : ℚ) / den < 2 ^ (log2Quotient num den + 1) := by
  have hd : (0 : ℚ) < den := by exact_mod_cast hden
  have hn1 : (2 : ℚ) ^ num.log2 ≤ num := by exact_mod_cast Nat.log2_self_le hnum.ne'
  have hn2 : (num : ℚ) < 2 ^ (num.log2 + 1) := by exact_mod_cast Nat.lt_log2_self
  have hd1 : (2 : ℚ) ^ den.log2 ≤ den := by exact_mod_cast Nat.log2_self_le hden.ne'
  have hd2 : (den : ℚ) < 2 ^ (den.log2 + 1) := by exact_mod_cast Nat.lt_log2_self
  have hlow : (2 : ℚ) ^ ((num.log2 : Int) - den.log2 - 1) ≤ (num : ℚ) / den := by
    rw [le_div_iff₀ hd]
    calc (2 : ℚ) ^ ((num.log2 : Int) - den.log2 - 1) * den
        ≤ 2 ^ ((num.log2 : Int) - den.log2 - 1) * 2 ^ ((den.log2 : Int) + 1) := by
          gcongr
          exact_mod_cast hd2.le
      _ = 2 ^ num.log2 := by
          rw [← zpow_add₀ two_ne_zero, ← zpow_natCast]
          congr 1
          ring
      _ ≤ num := hn1
  have hhigh : (num : ℚ) / den < 2 ^ ((num.log2 : Int) - den.log2 + 1) := by
    rw [div_lt_iff₀ hd]
    calc (num : ℚ) < 2 ^ (num.log2 + 1) := hn2
      _ = 2 ^ ((num.log2 : Int) - den.log2 + 1) * 2 ^ den.log2 := by
          rw [← zpow_natCast, ← zpow_natCast, ← zpow_add₀ two_ne_zero]
          congr 1
          push_cast
          ring
      _ ≤ 2 ^ ((num.log2 : Int) - den.log2 + 1) * den := by
          gcongr
  simp only [log2Quotient]
  split
  · rename_i h
    rw [scaled_lt_scaled_iff num hden] at h
    exact ⟨hlow, by rwa [sub_add_cancel]⟩
  · rename_i h
    rw [scaled_lt_scaled_iff num hden, not_lt] at h
    exact ⟨h, hhigh⟩

/-- `log2Quotient` is the floor of the binary logarithm: it is below an exponent exactly when the quotient is below the power
of two. -/
theorem log2Quotient_lt_iff {num den : Nat} (hnum : 0 < num) (hden : 0 < den) (e : Int) :
    log2Quotient num den < e ↔ (num : ℚ) / den < 2 ^ e := by
  obtain ⟨hlow, hhigh⟩ := log2Quotient_bounds hnum hden
  constructor
  · intro h
    exact lt_of_lt_of_le hhigh (zpow_le_zpow_right₀ one_le_two (by omega))
  · intro h
    by_contra hle
    have hmono : (2 : ℚ) ^ e ≤ 2 ^ log2Quotient num den := zpow_le_zpow_right₀ one_le_two (by omega)
    exact absurd h (not_lt.mpr (hmono.trans hlow))

/-- The logarithm depends on the value of the quotient alone. -/
theorem log2Quotient_mul_right {num den k : Nat} (hnum : 0 < num) (hden : 0 < den) (hk : 0 < k) :
    log2Quotient (num * k) (den * k) = log2Quotient num den := by
  have hkq : (k : ℚ) ≠ 0 := by exact_mod_cast hk.ne'
  have hvalue : ((num * k : Nat) : ℚ) / ((den * k : Nat) : ℚ) = (num : ℚ) / den := by
    push_cast
    exact mul_div_mul_right _ _ hkq
  have hlt : ∀ e, log2Quotient (num * k) (den * k) < e ↔ log2Quotient num den < e := by
    intro e
    rw [log2Quotient_lt_iff (Nat.mul_pos hnum hk) (Nat.mul_pos hden hk), log2Quotient_lt_iff hnum hden, hvalue]
  have h1 := (hlt (log2Quotient num den + 1)).2 (by omega)
  have h2 := (hlt (log2Quotient (num * k) (den * k) + 1)).1 (by omega)
  omega

/-! ## The nearest magnitude -/

/-- Rounding depends on the value of the quotient alone. -/
theorem roundHalfEven_mul_right (num den : Nat) {k : Nat} (hk : 0 < k) :
    roundHalfEven (num * k) (den * k) = roundHalfEven num den := by
  have hlt : ∀ a b : Nat, a * k < b * k ↔ a < b := fun a b => Nat.mul_lt_mul_right hk
  simp only [roundHalfEven, Nat.mul_div_mul_right _ _ hk, Nat.mul_mod_mul_right, ← Nat.mul_assoc, hlt]

theorem roundHalfEven_whole (n : Nat) {k : Nat} (hk : 0 < k) : roundHalfEven (n * k) k = n := by
  simp [roundHalfEven, Nat.mul_div_cancel _ hk, hk]

/-- The nearest magnitude depends on the value of the quotient alone. -/
theorem nearest_mul_right (num : Nat) {den k : Nat} (hden : 0 < den) (hk : 0 < k) :
    nearest (num * k) (den * k) = nearest num den := by
  rcases Nat.eq_zero_or_pos num with rfl | hnum
  · simp [nearest]
  · have hne : num * k ≠ 0 := (Nat.mul_pos hnum hk).ne'
    simp only [nearest, if_neg hne, if_neg hnum.ne', log2Quotient_mul_right hnum hden hk,
      Nat.mul_right_comm _ k, roundHalfEven_mul_right _ _ hk]

/-! ## Finite magnitudes -/

theorem quotient_snd_pos (m : Nat) : 0 < (quotient m).2 :=
  Nat.pow_pos (by decide)

theorem quotient_fst_pos {m : Nat} (hm : 0 < m) : 0 < (quotient m).1 := by
  refine Nat.mul_pos ?_ (Nat.pow_pos (by decide))
  unfold significand fractionBound
  split <;> omega

/-- The value of a magnitude's quotient is the significand times the power of two. -/
theorem quotient_value (m : Nat) : ((quotient m).1 : ℚ) / (quotient m).2 = significand m * 2 ^ scale m := by
  unfold quotient
  obtain ⟨n, h | h⟩ := (scale m).eq_nat_or_neg
  · simp [h]
  · simp [h, zpow_neg, div_eq_mul_inv]

/-- A finite magnitude is put together from its significand and scale. -/
theorem assemble_magnitude (m : Nat) :
    (scale m + 1074).toNat * fractionBound + significand m = m := by
  have hdiv := Nat.div_add_mod m fractionBound
  unfold significand scale
  unfold fractionBound at hdiv ⊢
  split <;> omega

/-- The unit to which `nearest` rounds the value of a magnitude is that of the magnitude. -/
theorem unit_eq_scale {m : Nat} (hm : 0 < m) :
    max (-1074) (log2Quotient (quotient m).1 (quotient m).2 - 52) = scale m := by
  have hlt := log2Quotient_lt_iff (quotient_fst_pos hm) (quotient_snd_pos m)
  simp only [quotient_value] at hlt
  have hpos : (0 : ℚ) < 2 ^ scale m := by positivity
  have hupper : log2Quotient (quotient m).1 (quotient m).2 < scale m + 53 := by
    have hs : (significand m : ℚ) < 2 ^ (53 : Int) := by
      have : significand m < 9007199254740992 := by
        unfold significand fractionBound
        split <;> omega
      norm_num
      exact_mod_cast this
    rw [hlt, add_comm, zpow_add₀ two_ne_zero]
    exact mul_lt_mul_of_pos_right hs hpos
  by_cases hsub : m < fractionBound
  · have hscale : scale m = -1074 := by rw [scale, if_pos hsub]
    have hs : (significand m : ℚ) < 2 ^ (52 : Int) := by
      rw [significand, if_pos hsub]
      unfold fractionBound at hsub
      norm_num
      exact_mod_cast hsub
    have hlow : log2Quotient (quotient m).1 (quotient m).2 < scale m + 52 := by
      rw [hlt, add_comm, zpow_add₀ two_ne_zero]
      exact mul_lt_mul_of_pos_right hs hpos
    omega
  · have hscale : -1074 ≤ scale m := by
      rw [scale, if_neg hsub]
      unfold fractionBound at hsub ⊢
      omega
    have hs : (2 : ℚ) ^ (52 : Int) ≤ significand m := by
      rw [significand, if_neg hsub]
      unfold fractionBound
      norm_num
    have hlow : ¬ log2Quotient (quotient m).1 (quotient m).2 < scale m + 52 := by
      rw [hlt, not_lt, add_comm, zpow_add₀ two_ne_zero]
      exact mul_le_mul_of_nonneg_right hs hpos.le
    omega

/-- The value of a finite magnitude is rounded to that magnitude. -/
theorem nearest_quotient {m : Nat} (hm : 0 < m) (hfinite : m < infinityMagnitude) :
    nearest (quotient m).1 (quotient m).2 = m := by
  have hc : 0 < Nat.pow 2 (-scale m).toNat * Nat.pow 2 (scale m).toNat :=
    Nat.mul_pos (Nat.pow_pos (by decide)) (Nat.pow_pos (by decide))
  have hround : roundHalfEven ((quotient m).1 * Nat.pow 2 (-scale m).toNat) ((quotient m).2 * Nat.pow 2 (scale m).toNat) =
      significand m := by
    simp only [quotient]
    rw [Nat.mul_assoc, Nat.mul_comm (Nat.pow 2 (scale m).toNat)]
    exact roundHalfEven_whole _ hc
  simp only [nearest, if_neg (quotient_fst_pos hm).ne', unit_eq_scale hm, hround, assemble_magnitude]
  exact Nat.min_eq_left hfinite.le

end Keyset.Number
