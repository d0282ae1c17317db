/-!
# Digits and blanks

What readers of texts tell apart. The digits of a natural number as a list of characters, and the number that a list of digits
writes: `Decimal.value_digits` says that the two are inverse, `Decimal.isDigit_of_mem_digits` that nothing but digits is written.
Then the characters with the Unicode property `White_Space`, and the cutting of blanks from a text.
-/

namespace Keyset

/-! ## Decimal numerals -/

namespace Decimal

/-- The decimal digits of a number, most significant first, without leading zeros; zero is the one digit `0`. -/
def digits (n : Nat) : List Char :=
  Nat.toDigits 10 n

/-- The digits of a number, filled up with leading zeros to at least `width` places. -/
def padded (width n : Nat) : List Char :=
  List.replicate (width - (digits n).length) '0' ++ digits n

/-- The number that a list of decimal digits writes. -/
def value (ds : List Char) : Nat :=
  Nat.ofDigitChars 10 ds 0

/-- The text of an integer: its digits, after a minus sign when it is negative. -/
def ofInt (n : Int) : List Char :=
  if n < 0 then '-' :: digits n.natAbs else digits n.natAbs

theorem value_digits (n : Nat) : value (digits n) = n :=
  Nat.ofDigitChars_ten_toDigits

theorem value_padded (width n : Nat) : value (padded width n) = n := by
  have h : Nat.ofDigitChars 10 (digits n) 0 = n := value_digits n
  simp [value, padded, Nat.ofDigitChars_append, Nat.ofDigitChars_replicate_zero, h]

theorem isDigit_of_mem_digits {n : Nat} {c : Char} (h : c ∈ digits n) : c.isDigit = true :=
  Nat.isDigit_of_mem_toDigits (by decide) (by decide) h

theorem digits_ne_nil (n : Nat) : digits n ≠ [] :=
  Nat.toDigits_ne_nil

end Decimal

/-! ## Blanks -/

/-- The characters with the property `White_Space`: twenty-five code points. -/
def isBlank (c : Char) : Bool :=
  (0x09 ≤ c.val && c.val ≤ 0x0D) || c.val = 0x20 || c.val = 0x85 || c.val = 0xA0 || c.val = 0x1680 ||
  (0x2000 ≤ c.val && c.val ≤ 0x200A) || c.val = 0x2028 || c.val = 0x2029 || c.val = 0x202F || c.val = 0x205F ||
  c.val = 0x3000

/-- What is left after the leading blanks. -/
def dropBlanks (cs : List Char) : List Char :=
  cs.dropWhile isBlank

/-- What is left without the blanks at both ends. -/
def trimBlanks (cs : List Char) : List Char :=
  (dropBlanks (dropBlanks cs).reverse).reverse

end Keyset
