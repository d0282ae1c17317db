/-!
# Binary64 numbers

A number is a 64-bit word of the binary64 format: a sign bit above a 63-bit magnitude. Magnitudes grow with the
absolute value they stand for, up to infinity; the words above infinity are NaNs. Both comparisons are read off
integer keys, so the order of two numbers is the order of two integers: `totalKey` tells all words apart,
`valueKey` joins the two zeros.
-/

namespace Keyset

/-- A binary64 number, given by its word. -/
structure Number where
  bits : UInt64
  deriving DecidableEq

namespace Number

/-- The weight of the sign bit. -/
def signWeight : Nat :=
  0x8000000000000000

/-- The weight of the lowest exponent bit; the fraction is below it. -/
def fractionBound : Nat :=
  0x10000000000000

/-- The magnitude of infinity: all exponent bits set, all fraction bits clear. -/
def infinityMagnitude : Nat :=
  0x7FF0000000000000

/-- The magnitude of the NaN that reading a text gives. -/
def quietMagnitude : Nat :=
  0x7FF8000000000000

/-- The sign bit. -/
def isNegative (x : Number) : Bool :=
  signWeight ≤ x.bits.toNat

/-- The word without its sign bit. -/
def magnitude (x : Number) : Nat :=
  x.bits.toNat % signWeight

/-- The number with a given sign and magnitude. -/
def ofMagnitude (negative : Bool) (magnitude : Nat) : Number :=
  ⟨UInt64.ofNat (if negative then signWeight + magnitude else magnitude)⟩

/-- A number is made of its sign and magnitude. -/
theorem ofMagnitude_magnitude (x : Number) : ofMagnitude x.isNegative x.magnitude = x := by
  have hlt : x.bits.toNat < 0x10000000000000000 := x.bits.toNat_lt
  have hm : x.magnitude = x.bits.toNat % 0x8000000000000000 := rfl
  have hw : (if x.isNegative then signWeight + x.magnitude else x.magnitude) = x.bits.toNat := by
    cases hs : x.isNegative with
    | true =>
      have hle : 0x8000000000000000 ≤ x.bits.toNat := of_decide_eq_true hs
      rw [if_pos rfl, signWeight]
      omega
    | false =>
      have hle : ¬ 0x8000000000000000 ≤ x.bits.toNat := of_decide_eq_false hs
      rw [if_neg Bool.false_ne_true]
      omega
  rw [ofMagnitude, hw, UInt64.ofNat_toNat]

/-- Whether a word stands for no number. -/
def isNaN (x : Number) : Bool :=
  infinityMagnitude < x.magnitude

/-- The place of a word in the total order: negative words below the others, in reverse. -/
def totalKey (x : Number) : Int :=
  if x.isNegative then -1 - x.magnitude else x.magnitude

/-- The place of a word that is no NaN among the extended reals, in units that grow with the value. -/
def valueKey (x : Number) : Int :=
  if x.isNegative then -x.magnitude else x.magnitude

/-- The total order of all words: it tells the two zeros apart and sets NaNs beyond the infinities, at the side of
their sign (`total_cmp`). -/
def totalCompare (x y : Number) : Ordering :=
  compare x.totalKey y.totalKey

/-- The order of the values (`partial_cmp`): the two zeros are equal, and a NaN is not comparable. -/
def compare? (x y : Number) : Option Ordering :=
  if x.isNaN || y.isNaN then none else some (compare x.valueKey y.valueKey)

end Number

end Keyset
