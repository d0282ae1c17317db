import Keyset.Text.Lexical

/-!
# Runs of digits and texts without blanks

A numeral followed by anything but a digit is read back whole (`Decimal.takeWhile_digits`, `Decimal.dropWhile_digits`), and a field
of fixed width has that width (`Decimal.length_padded`). The visible characters of ASCII are no blanks, so a text that consists of
them has none to cut (`trimBlanks_eq_self`).
-/

namespace Keyset

/-! ## Decimal numerals -/

namespace Decimal

/-- The leading digits of a run of digits are the run. -/
theorem takeWhile_digits {ds rest : List Char} (hds : ∀ c ∈ ds, c.isDigit = true)
    (hrest : ∀ c ∈ rest.head?, c.isDigit = false) : (ds ++ rest).takeWhile Char.isDigit = ds := by
  rw [List.takeWhile_append_of_pos hds]
  cases rest with
  | nil => simp
  | cons c rest => simp [hrest c rfl]

/-- Behind a run of digits the rest is left. -/
theorem dropWhile_digits {ds rest : List Char} (hds : ∀ c ∈ ds, c.isDigit = true)
    (hrest : ∀ c ∈ rest.head?, c.isDigit = false) : (ds ++ rest).dropWhile Char.isDigit = rest := by
  rw [List.dropWhile_append_of_pos hds]
  cases rest with
  | nil => rfl
  | cons c rest => simp [hrest c rfl]

theorem isDigit_of_mem_padded {width n : Nat} {c : Char} (h : c ∈ padded width n) : c.isDigit = true := by
  rcases List.mem_append.1 h with h | h
  · rw [List.eq_of_mem_replicate h]
    rfl
  · exact isDigit_of_mem_digits h

theorem le_length_padded (width n : Nat) : width ≤ (padded width n).length := by
  simp only [padded, List.length_append, List.length_replicate]
  omega

theorem length_padded {width n : Nat} (hwidth : 0 < width) (h : n < Nat.pow 10 width) : (padded width n).length = width := by
  have hle : (digits n).length ≤ width := (Nat.length_toDigits_le_iff (by decide) hwidth).2 h
  simp only [padded, List.length_append, List.length_replicate]
  omega

/-- A numeral with a zero behind it writes ten times the number. -/
theorem digits_mul_ten {n : Nat} (h : 0 < n) : digits (n * 10) = digits n ++ ['0'] := by
  have := Nat.toDigits_append_toDigits (b := 10) (by decide) h (d := 0) (by decide)
  rw [Nat.add_zero, Nat.mul_comm] at this
  exact this.symm

/-- A number is less than the power of ten with as many zeros as the number has digits. -/
theorem lt_pow_length_digits (n : Nat) : n < Nat.pow 10 (digits n).length :=
  (Nat.length_toDigits_le_iff (by decide) Nat.length_toDigits_pos).1 (Nat.le_refl _)

end Decimal

/-! ## Blanks -/

/-- A visible character of ASCII is no blank. -/
theorem isBlank_of_visible {c : Char} (hlow : 0x20 < c.toNat) (hhigh : c.toNat < 0x7F) : isBlank c = false := by
  have hl : 32 < c.val.toNat := hlow
  have hh : c.val.toNat < 127 := hhigh
  simp only [isBlank, Bool.or_eq_false_iff, Bool.and_eq_false_iff, decide_eq_false_iff_not, UInt32.le_iff_toNat_le,
    ← UInt32.toNat_inj]
  simp only [UInt32.reduceToNat]
  omega

theorem isBlank_of_isDigit {c : Char} (h : c.isDigit = true) : isBlank c = false := by
  simp only [Char.isDigit, Bool.and_eq_true, decide_eq_true_eq, UInt32.le_iff_toNat_le] at h
  have hlow : 48 ≤ c.toNat := h.1
  have hhigh : c.toNat ≤ 57 := h.2
  exact isBlank_of_visible (by omega) (by omega)

theorem dropBlanks_cons {c : Char} {rest : List Char} (h : isBlank c = false) : dropBlanks (c :: rest) = c :: rest := by
  simp [dropBlanks, h]

/-- A text without blanks stays as it is. -/
theorem trimBlanks_eq_self {cs : List Char} (h : ∀ c ∈ cs, isBlank c = false) : trimBlanks cs = cs := by
  have hdrop : ∀ ds, (∀ c ∈ ds, isBlank c = false) → dropBlanks ds = ds := by
    intro ds hds
    cases ds with
    | nil => rfl
    | cons d ds => exact dropBlanks_cons (hds d List.mem_cons_self)
  have hreverse : ∀ c ∈ cs.reverse, isBlank c = false := by
    intro c hc
    exact h c (List.mem_reverse.1 hc)
  rw [trimBlanks, hdrop cs h, hdrop cs.reverse hreverse, List.reverse_reverse]

end Keyset
