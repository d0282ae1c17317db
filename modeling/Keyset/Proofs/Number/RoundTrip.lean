import Mathlib
import Keyset.Number.Numeral
import Keyset.Proofs.Number.Nearest
import Keyset.Proofs.Text.Lexical

/-!
# Numbers read back from their text

`parse?_text`: the text of a number that is no NaN is read as that number, bit for bit. On the way, a decimal may be written
with more or fewer zeros without changing the magnitude it reads as (`nearestDecimal_mul_ten`), and what `shortest` writes
reads as the magnitude it was written for (`magnitude_shortest`).
-/

namespace Keyset.Number

/-! ## Decimals with more zeros -/

/-- A zero behind the significand stands for a greater exponent. -/
theorem nearestDecimal_mul_ten (s : Nat) (e : Int) : nearestDecimal (s * 10) e = nearestDecimal s (e + 1) := by
  rcases Nat.eq_zero_or_pos s with rfl | hs
  · simp [nearestDecimal]
  · have hlength : (Decimal.digits (s * 10)).length = (Decimal.digits s).length + 1 := by
      rw [Decimal.digits_mul_ten hs, List.length_append, List.length_singleton]
    have hplaces : ((Decimal.digits (s * 10)).length : Int) + e = (Decimal.digits s).length + (e + 1) := by
      rw [hlength]
      push_cast
      ring
    have hnearest : nearest (s * 10 * Nat.pow 10 e.toNat) (Nat.pow 10 (-e).toNat) =
        nearest (s * Nat.pow 10 (e + 1).toNat) (Nat.pow 10 (-(e + 1)).toNat) := by
      rcases Int.lt_or_le e 0 with he | he
      · obtain ⟨n, rfl⟩ : ∃ n : Nat, e = -(n + 1 : Nat) := ⟨(-e - 1).toNat, by omega⟩
        have h1 : (-((n + 1 : Nat) : Int)).toNat = 0 := by omega
        have h2 : (-((n + 1 : Nat) : Int) + 1).toNat = 0 := by omega
        have h3 : (-(-((n + 1 : Nat) : Int))).toNat = n + 1 := by omega
        have h4 : (-(-((n + 1 : Nat) : Int) + 1)).toNat = n := by omega
        simp only [h1, h2, h3, h4, Nat.pow_eq, pow_zero, mul_one, pow_succ]
        exact nearest_mul_right s (Nat.pow_pos (by decide)) (by decide)
      · obtain ⟨n, rfl⟩ := Int.eq_ofNat_of_zero_le he
        have h1 : ((n : Int) + 1).toNat = n + 1 := by omega
        have h2 : (-(n : Int)).toNat = 0 := by omega
        have h3 : (-((n : Int) + 1)).toNat = 0 := by omega
        simp only [h1, h2, h3, Int.toNat_natCast, Nat.pow_eq, pow_zero, pow_succ]
        ring_nf
    have hne : s * 10 ≠ 0 := by omega
    simp only [nearestDecimal, hplaces, hnearest, if_neg hne, if_neg hs.ne']

/-- Zeros behind the significand stand for a greater exponent. -/
theorem nearestDecimal_mul_pow (s k : Nat) (e : Int) :
    nearestDecimal (Nat.pow 10 k * s) e = nearestDecimal s (e + k) := by
  induction k generalizing e with
  | zero => simp [Nat.pow_eq]
  | succ k ih =>
    have hsplit : Nat.pow 10 (k + 1) * s = Nat.pow 10 k * s * 10 := by
      simp only [Nat.pow_eq, pow_succ]
      ring
    have hexponent : e + 1 + (k : Int) = e + (k + 1 : Nat) := by
      push_cast
      ring
    rw [hsplit, nearestDecimal_mul_ten, ih, hexponent]

/-- Dropping zeros behind the point does not change what is read. -/
theorem magnitude_strip (fuel : Nat) (d : Scaled) : (d.strip fuel).magnitude = d.magnitude := by
  induction fuel generalizing d with
  | zero => rfl
  | succ fuel ih =>
    rw [Scaled.strip]
    split
    · rename_i h
      have hs : d.significand / 10 * 10 = d.significand := by omega
      rw [ih, Scaled.magnitude, Scaled.magnitude, ← nearestDecimal_mul_ten, hs]
    · rfl

theorem magnitude_normal (d : Scaled) : d.normal.magnitude = d.magnitude :=
  magnitude_strip _ d

/-! ## What is written for a magnitude -/

/-- No finite number has more than 310 decimal places before the point. -/
theorem two_pow_le_ten_pow : 2 ^ 1024 ≤ 10 ^ 310 := by
  decide +kernel

/-- No finite number begins behind the 331st place after the point. -/
theorem two_pow_lt_ten_pow {p : Nat} (hp : p ≤ 1074) : 2 ^ p < 10 ^ 331 := by
  refine lt_of_le_of_lt (Nat.pow_le_pow_right (by decide) hp) ?_
  decide +kernel

/-- A finite magnitude is less than the power of two at 1024. -/
theorem quotient_lt {m k : Nat} (hfinite : m < infinityMagnitude) (hk : 1024 ≤ k) :
    (quotient m).1 < 2 ^ k * (quotient m).2 := by
  have hs : significand m < 2 ^ 53 := by
    unfold significand fractionBound
    split <;> omega
  have hscale : scale m ≤ 971 := by
    unfold scale fractionBound
    unfold infinityMagnitude at hfinite
    split <;> omega
  calc (quotient m).1 = significand m * 2 ^ (scale m).toNat := rfl
    _ < 2 ^ 53 * 2 ^ (scale m).toNat := Nat.mul_lt_mul_of_pos_right hs (Nat.pow_pos (by decide))
    _ = 2 ^ (53 + (scale m).toNat) := (pow_add ..).symm
    _ ≤ 2 ^ k := Nat.pow_le_pow_right (by decide) (by omega)
    _ ≤ 2 ^ k * (quotient m).2 := Nat.le_mul_of_pos_right _ (quotient_snd_pos m)

/-- The decimal that equals a finite magnitude reads as that magnitude. -/
theorem magnitude_exactDecimal {m : Nat} (hm : 0 < m) (hfinite : m < infinityMagnitude) :
    (exactDecimal (quotient m).1 (-scale m).toNat).magnitude = m := by
  obtain ⟨p, hp⟩ : ∃ p, (-scale m).toNat = p := ⟨_, rfl⟩
  have hp_le : p ≤ 1074 := by
    rw [← hp]
    unfold scale fractionBound
    split <;> omega
  have hden : (quotient m).2 = 2 ^ p := by rw [← hp]; rfl
  have hnum := quotient_fst_pos hm
  have hlt := quotient_lt hfinite (Nat.le_refl 1024)
  have hnearest := nearest_quotient hm hfinite
  rw [hden] at hlt hnearest
  generalize (quotient m).1 = num at hnum hlt hnearest
  have hbound := two_pow_le_ten_pow
  generalize 2 ^ 1024 = bound at hlt hbound
  have h5 : 0 < 5 ^ p := Nat.pow_pos (by decide)
  have hten : 2 ^ p * 5 ^ p = 10 ^ p := by
    rw [← mul_pow]
    rfl
  have hpos : 0 < num * 5 ^ p := Nat.mul_pos hnum h5
  have hbelow : num * 5 ^ p < 10 ^ (310 + p) := by
    calc num * 5 ^ p < bound * 2 ^ p * 5 ^ p := Nat.mul_lt_mul_of_pos_right hlt h5
      _ = bound * 10 ^ p := by rw [mul_assoc, hten]
      _ ≤ 10 ^ 310 * 10 ^ p := Nat.mul_le_mul_right _ hbound
      _ = 10 ^ (310 + p) := (pow_add ..).symm
  have hlength_le : (Decimal.digits (num * 5 ^ p)).length ≤ 310 + p :=
    (Nat.length_toDigits_le_iff (by decide) (by omega)).2 hbelow
  have hlength_ge : p < (Decimal.digits (num * 5 ^ p)).length + 331 := by
    obtain ⟨j, hj⟩ : ∃ j, j = 331 := ⟨_, rfl⟩
    have htail : 2 ^ p < 10 ^ j := by
      rw [hj]
      exact two_pow_lt_ten_pow hp_le
    rw [← hj]
    by_contra hge
    have hscaled : 5 ^ p * 10 ^ j < 5 ^ p * 2 ^ p := by
      calc 5 ^ p * 10 ^ j ≤ num * 5 ^ p * 10 ^ j :=
            Nat.mul_le_mul_right _ (Nat.le_mul_of_pos_left _ hnum)
        _ < 10 ^ (Decimal.digits (num * 5 ^ p)).length * 10 ^ j :=
            Nat.mul_lt_mul_of_pos_right (Decimal.lt_pow_length_digits _) (Nat.pow_pos (by decide))
        _ = 10 ^ ((Decimal.digits (num * 5 ^ p)).length + j) := (pow_add ..).symm
        _ ≤ 10 ^ p := Nat.pow_le_pow_right (by decide) (Nat.not_lt.1 hge)
        _ = 5 ^ p * 2 ^ p := by rw [mul_comm, hten]
    exact Nat.lt_asymm htail (Nat.lt_of_mul_lt_mul_left hscaled)
  rw [exactDecimal, hp, magnitude_normal, Scaled.magnitude]
  have hne : ¬ num * 5 ^ p = 0 := hpos.ne'
  have hmany : ¬ (310 : Int) < (Decimal.digits (num * 5 ^ p)).length + -(p : Int) := by omega
  have hfew : ¬ ((Decimal.digits (num * 5 ^ p)).length : Int) + -(p : Int) < -330 := by omega
  simp only [nearestDecimal, Nat.pow_eq, if_neg hne, if_neg hmany, if_neg hfew, Int.toNat_neg_natCast, neg_neg,
    Int.toNat_natCast, pow_zero, mul_one, ← hten]
  rw [nearest_mul_right num (Nat.pow_pos (by decide)) h5, hnearest]

/-- The decimal that is written for a finite magnitude reads as that magnitude. -/
theorem magnitude_shortest {m : Nat} (hm : 0 < m) (hfinite : m < infinityMagnitude) :
    (shortest m).magnitude = m := by
  obtain ⟨search, hsearch⟩ : ∃ search, ((List.range 17).findSome? fun (n : Nat) =>
      (neighbours (quotient m).1 (quotient m).2 (wholePlaces (quotient m).1 (quotient m).2 - n - 1)).find?
        (·.magnitude = m)) = search := ⟨_, rfl⟩
  have hshortest : shortest m = search.getD (exactDecimal (quotient m).1 (-scale m).toNat) := by
    rw [← hsearch]
    rfl
  rw [hshortest]
  cases search with
  | none => exact magnitude_exactDecimal hm hfinite
  | some d =>
    obtain ⟨n, -, hn⟩ := List.exists_of_findSome?_eq_some hsearch
    simpa using List.find?_some hn

/-! ## Text -/

theorem takeDigits_append {ds rest : List Char} (hds : ∀ c ∈ ds, c.isDigit = true)
    (hrest : ∀ c ∈ rest.head?, c.isDigit = false) : takeDigits (ds ++ rest) = (ds, rest) := by
  rw [takeDigits, Decimal.takeWhile_digits hds hrest, Decimal.dropWhile_digits hds hrest]

/-- A text that does not begin with a sign has none. -/
theorem takeSign_eq {cs : List Char} (h : ∀ c ∈ cs.head?, c ≠ '-' ∧ c ≠ '+') : takeSign cs = (false, cs) := by
  unfold takeSign
  split
  · exact absurd rfl (h _ rfl).1
  · exact absurd rfl (h _ rfl).2
  · rfl

/-- Digits alone are a numeral. -/
theorem scaledOf?_digits {ds : List Char} (hne : ds ≠ []) (hds : ∀ c ∈ ds, c.isDigit = true) :
    scaledOf? ds = some ⟨Decimal.value ds, 0⟩ := by
  have htake : takeDigits (ds ++ []) = (ds, []) := takeDigits_append hds (by simp)
  rw [List.append_nil] at htake
  simp [scaledOf?, htake, hne, exponentOf?]

/-- Digits, a point and more digits are a numeral. -/
theorem scaledOf?_point {ws fs : List Char} (hne : ws ≠ []) (hws : ∀ c ∈ ws, c.isDigit = true)
    (hfs : ∀ c ∈ fs, c.isDigit = true) :
    scaledOf? (ws ++ '.' :: fs) = some ⟨Decimal.value (ws ++ fs), -fs.length⟩ := by
  have hwhole : takeDigits (ws ++ '.' :: fs) = (ws, '.' :: fs) :=
    takeDigits_append hws (by simp)
  have hfraction : takeDigits (fs ++ []) = (fs, []) := takeDigits_append hfs (by simp)
  rw [List.append_nil] at hfraction
  simp [scaledOf?, hwhole, hfraction, hne, exponentOf?]

/-- The text of a decimal reads as the magnitude of the decimal. -/
theorem scaledOf?_text (d : Scaled) : (scaledOf? d.text).map Scaled.magnitude = some d.magnitude := by
  unfold Scaled.text
  split
  · rename_i he
    obtain ⟨k, hk⟩ := Int.eq_ofNat_of_zero_le he
    have hds : ∀ c ∈ Decimal.digits d.significand ++ List.replicate d.exponent.toNat '0', c.isDigit = true := by
      intro c hc
      rcases List.mem_append.1 hc with hc | hc
      · exact Decimal.isDigit_of_mem_digits hc
      · rw [List.eq_of_mem_replicate hc]
        rfl
    have hvalue : Decimal.value (Decimal.digits d.significand ++ List.replicate d.exponent.toNat '0') =
        Nat.pow 10 k * d.significand := by
      have hdigits : Nat.ofDigitChars 10 (Decimal.digits d.significand) 0 = d.significand := Decimal.value_digits _
      rw [hk, Int.toNat_natCast, Decimal.value, Nat.ofDigitChars_append, Nat.ofDigitChars_replicate_zero, hdigits]
      rfl
    rw [scaledOf?_digits (by simp [Decimal.digits_ne_nil]) hds, Option.map_some, Scaled.magnitude, hvalue,
      nearestDecimal_mul_pow, zero_add, Scaled.magnitude, hk]
  · rename_i he
    obtain ⟨p, hp, hpos⟩ : ∃ p : Nat, d.exponent = -(p : Int) ∧ 0 < p := ⟨(-d.exponent).toNat, by omega, by omega⟩
    have hplaces : (-d.exponent).toNat = p := by omega
    have hlength := Decimal.le_length_padded (p + 1) d.significand
    simp only [hplaces]
    generalize hds : Decimal.padded (p + 1) d.significand = ds at hlength
    have hdigit : ∀ c ∈ ds, c.isDigit = true := by
      intro c hc
      rw [← hds] at hc
      exact Decimal.isDigit_of_mem_padded hc
    have hne : ds.take (ds.length - p) ≠ [] := by
      rw [ne_eq, ← List.length_eq_zero_iff, List.length_take]
      omega
    have hfraction : (ds.drop (ds.length - p)).length = p := by
      rw [List.length_drop]
      omega
    rw [scaledOf?_point hne (fun c hc => hdigit c (List.mem_of_mem_take hc)) (fun c hc => hdigit c (List.mem_of_mem_drop hc)),
      List.take_append_drop, hfraction, ← hds, Decimal.value_padded, ← hp]
    rfl

/-- The text of a decimal begins with a digit. -/
theorem text_head (d : Scaled) : ∃ c rest, d.text = c :: rest ∧ c.isDigit = true := by
  unfold Scaled.text
  split
  · obtain ⟨c, rest, h⟩ := List.exists_cons_of_ne_nil (Decimal.digits_ne_nil d.significand)
    have hmem : c ∈ Decimal.digits d.significand := by
      rw [h]
      exact List.mem_cons_self
    exact ⟨c, rest ++ List.replicate d.exponent.toNat '0', by rw [h]; rfl, Decimal.isDigit_of_mem_digits hmem⟩
  · generalize (-d.exponent).toNat = p
    have hlength := Decimal.le_length_padded (p + 1) d.significand
    obtain ⟨c, rest, h⟩ : ∃ c rest, Decimal.padded (p + 1) d.significand = c :: rest :=
      List.exists_cons_of_ne_nil (by rw [ne_eq, ← List.length_eq_zero_iff]; omega)
    have hmem : c ∈ Decimal.padded (p + 1) d.significand := by
      rw [h]
      exact List.mem_cons_self
    obtain ⟨k, hk⟩ : ∃ k, (Decimal.padded (p + 1) d.significand).length - p = k + 1 :=
      ⟨(Decimal.padded (p + 1) d.significand).length - p - 1, by omega⟩
    simp only [hk]
    rw [h]
    exact ⟨c, rest.take k ++ '.' :: rest.drop k, by simp, Decimal.isDigit_of_mem_padded hmem⟩

/-- The text of a magnitude, as it stands behind the sign. -/
def unsignedChars (magnitude : Nat) : List Char :=
  if magnitude = infinityMagnitude then "inf".toList
  else if magnitude = 0 then ['0']
  else (shortest magnitude).text

/-- The text of a number that is no NaN: a minus sign if it is negative, and the text of its magnitude. -/
theorem chars_eq {x : Number} (h : x.isNaN = false) :
    x.chars = if x.isNegative then '-' :: unsignedChars x.magnitude else unsignedChars x.magnitude := by
  simp [chars, h, unsignedChars]

/-- What begins with a digit is no word. -/
theorem magnitudeOf?_digit {c : Char} {rest : List Char} (hc : c.isDigit = true) :
    magnitudeOf? (c :: rest) = (scaledOf? (c :: rest)).map Scaled.magnitude := by
  have hword : ∀ d ds, d.isDigit = false → String.ofList ((c :: rest).map Char.toLower) ≠ String.ofList (d :: ds) := by
    intro d ds hd h
    have hhead : c.toLower = d := by
      have := congrArg String.toList h
      simp only [String.toList_ofList, List.map_cons, List.cons.injEq] at this
      exact this.1
    have hlower : c.toLower = c := by
      simp only [Char.isDigit, Bool.and_eq_true, decide_eq_true_eq] at hc
      rw [Char.toLower, dif_neg]
      intro hupper
      exact absurd (UInt32.le_trans hupper.1 hc.2) (by decide)
    rw [← hhead, hlower, hc] at hd
    cases hd
  have hinf := hword 'i' ['n', 'f'] rfl
  have hinfinity := hword 'i' ['n', 'f', 'i', 'n', 'i', 't', 'y'] rfl
  have hnan := hword 'n' ['a', 'n'] rfl
  simp only [magnitudeOf?]
  rw [if_neg (not_or.2 ⟨hinf, hinfinity⟩), if_neg hnan]

/-- The text of a magnitude does not begin with a sign, and reads as the magnitude. -/
theorem unsignedChars_read {m : Nat} (h : m ≤ infinityMagnitude) :
    (∀ c ∈ (unsignedChars m).head?, c ≠ '-' ∧ c ≠ '+') ∧ magnitudeOf? (unsignedChars m) = some m := by
  unfold unsignedChars
  split
  · rename_i hinf
    rw [hinf]
    exact ⟨by simp, rfl⟩
  · split
    · rename_i hzero
      rw [hzero]
      exact ⟨by simp, rfl⟩
    · rename_i hinf hzero
      obtain ⟨c, rest, htext, hc⟩ := text_head (shortest m)
      have hread := scaledOf?_text (shortest m)
      rw [magnitude_shortest (by omega) (by omega)] at hread
      rw [htext] at hread ⊢
      refine ⟨?_, by rw [magnitudeOf?_digit hc, hread]⟩
      intro c' hc'
      cases hc'
      constructor
      · rintro rfl
        exact absurd hc (by decide)
      · rintro rfl
        exact absurd hc (by decide)

/-- The text of a number that is no NaN is read as that number. -/
theorem parse?_text {x : Number} (h : x.isNaN = false) : parse? x.text = some x := by
  have hm : x.magnitude ≤ infinityMagnitude := by
    simpa [isNaN] using h
  obtain ⟨hsign, hread⟩ := unsignedChars_read hm
  have hsplit : takeSign x.chars = (x.isNegative, unsignedChars x.magnitude) := by
    rw [chars_eq h]
    cases x.isNegative with
    | true => rfl
    | false => exact takeSign_eq hsign
  rw [parse?, text, String.toList_ofList, hsplit]
  simp only [hread, Option.map_some, ofMagnitude_magnitude]

/-- The NaN that is read. -/
def nan : Number :=
  ofMagnitude false quietMagnitude

/-- Every NaN has the same text, which is read as a NaN. -/
theorem parse?_text_of_isNaN {x : Number} (h : x.isNaN = true) : parse? x.text = some nan := by
  rw [text, chars, if_pos h]
  rfl

end Keyset.Number
