import Keyset.Json.Numeral
import Keyset.Proofs.Text.Lexical

/-!
# Integers are read back

`Numeral.ofChars_ofInt`: the text of an integer that a signed or an unsigned 64-bit word can hold is read as that integer. The digits
are gathered one by one, and none of them is left over as long as the whole number fits.
-/

namespace Keyset.Json.Numeral

/-- Digits behind a number only make it greater. -/
theorem le_ofDigitChars (n : Nat) (cs : List Char) : n ≤ Nat.ofDigitChars 10 cs n := by
  induction cs generalizing n with
  | nil => exact Nat.le_refl n
  | cons c cs ih =>
    rw [Nat.ofDigitChars_cons]
    have hrest := ih (10 * n + (c.toNat - '0'.toNat))
    omega

/-- All digits are gathered as long as the whole number fits. -/
theorem gather_eq {n : Nat} {cs : List Char} (h : Nat.ofDigitChars 10 cs n < wordBound) :
    gather n cs = (Nat.ofDigitChars 10 cs n, []) := by
  induction cs generalizing n with
  | nil => rfl
  | cons c cs ih =>
    rw [Nat.ofDigitChars_cons] at h ⊢
    have hfits : 10 * n + (c.toNat - 48) < wordBound := Nat.lt_of_le_of_lt (le_ofDigitChars _ cs) h
    rw [gather, if_pos hfits]
    exact ih h

theorem gather_digits {n : Nat} (h : n < wordBound) : gather 0 (Decimal.digits n) = (n, []) := by
  have hvalue : Nat.ofDigitChars 10 (Decimal.digits n) 0 = n := Decimal.value_digits n
  rw [gather_eq (by rw [hvalue]; exact h), hvalue]

/-- The digits of a word are read as an integer: of any word without a sign, and with one of those whose double is no greater than
the bound. -/
theorem ofUnsigned_digits {n : Nat} (h : n < wordBound) :
    ofUnsigned false (Decimal.digits n) = integer n ∧
      (0 < n → 2 * n ≤ wordBound → ofUnsigned true (Decimal.digits n) = integer (-n)) := by
  have hdigits : ∀ c ∈ Decimal.digits n, c.isDigit = true := fun c hc => Decimal.isDigit_of_mem_digits hc
  have hend : ∀ c ∈ ([] : List Char).head?, c.isDigit = false := by
    intro c hc
    cases hc
  have htake := Decimal.takeWhile_digits hdigits hend
  have hdrop := Decimal.dropWhile_digits hdigits hend
  rw [List.append_nil] at htake hdrop
  simp only [ofUnsigned, htake, hdrop, gather_digits h]
  constructor
  · simp
  · intro hpos hdouble
    simp [hpos, hdouble]

/-- A text that begins with a digit has no sign. -/
theorem ofChars_digits (n : Nat) : ofChars (Decimal.digits n) = ofUnsigned false (Decimal.digits n) := by
  cases hdigits : Decimal.digits n with
  | nil => exact absurd hdigits (Decimal.digits_ne_nil n)
  | cons c cs =>
    have hc : c.isDigit = true := Decimal.isDigit_of_mem_digits (hdigits ▸ List.mem_cons_self)
    have hsign : c ≠ '-' := by
      rintro rfl
      cases hc
    rw [ofChars]
    intro ds hcons
    exact hsign (List.cons.inj hcons).1

/-- The text of an integer in the range of a signed or an unsigned 64-bit word is read as that integer. -/
theorem ofChars_ofInt {n : Int} (hleast : -9223372036854775808 ≤ n) (hgreatest : n < 18446744073709551616) :
    ofChars (Decimal.ofInt n) = integer n := by
  have hbound : wordBound = 18446744073709551616 := rfl
  have hword := ofUnsigned_digits (n := n.natAbs) (by omega)
  by_cases hn : n < 0
  · rw [Decimal.ofInt, if_pos hn]
    have hread := hword.2 (by omega) (by omega)
    have hvalue : -(n.natAbs : Int) = n := by omega
    rw [hvalue] at hread
    exact hread
  · rw [Decimal.ofInt, if_neg hn, ofChars_digits, hword.1]
    have hvalue : (n.natAbs : Int) = n := by omega
    rw [hvalue]

end Keyset.Json.Numeral
