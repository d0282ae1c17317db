import Keyset.Calendar.Timestamp
import Keyset.Proofs.Calendar.Date
import Keyset.Proofs.Text.Lexical

/-!
# Instants read back from their timestamps

`parse?_text`: the timestamp of an instant is read as what it shows of the instant (`carried`). That is the instant cut to
milliseconds, but for a leap second inside a minute, which shows as the second after it (`carried_eq_toMillis_iff`). Years of four
digits are read by the form with fields of fixed width, all others by the expanded form.
-/

namespace Keyset

namespace Instant

/-! ## Fields -/

/-- A field of fixed width is read. -/
theorem fixed?_padded {width n : Nat} (rest : List Char) (hwidth : 0 < width) (h : n < Nat.pow 10 width) :
    fixed? width (Decimal.padded width n ++ rest) = some (n, rest) := by
  have hlength := Decimal.length_padded hwidth h
  have htake : (Decimal.padded width n ++ rest).take width = Decimal.padded width n := List.take_left' hlength
  have hdrop : (Decimal.padded width n ++ rest).drop width = rest := List.drop_left' hlength
  have hdigits : (Decimal.padded width n).all Char.isDigit = true := by
    rw [List.all_eq_true]
    intro c hc
    exact Decimal.isDigit_of_mem_padded hc
  simp only [fixed?, htake, hdrop]
  rw [if_pos ⟨hlength, hdigits⟩, Decimal.value_padded]

theorem fixed?_eq_none {width : Nat} {c : Char} {rest : List Char} (hwidth : 0 < width) (hc : c.isDigit = false) :
    fixed? width (c :: rest) = none := by
  obtain ⟨w, rfl⟩ : ∃ w, width = w + 1 := ⟨width - 1, by omega⟩
  simp [fixed?, hc]

/-- A run of digits that ends within the width is read whole. -/
theorem short?_append {width : Nat} {ds rest : List Char} (hne : ds ≠ []) (hds : ∀ c ∈ ds, c.isDigit = true)
    (hwidth : ds.length ≤ width) (hrest : ∀ c ∈ rest.head?, c.isDigit = false) :
    short? width (ds ++ rest) = some (Decimal.value ds, rest) := by
  have htake : (ds ++ rest).take width = ds ++ rest.take (width - ds.length) := by
    rw [List.take_append, List.take_of_length_le hwidth]
  have hhead : ∀ c ∈ (rest.take (width - ds.length)).head?, c.isDigit = false := by
    intro c hc
    rw [List.head?_take] at hc
    split at hc
    · cases hc
    · exact hrest c hc
  simp only [short?, htake, Decimal.takeWhile_digits hds hhead]
  rw [if_neg hne, List.drop_left]

/-- A numeral with leading zeros that ends within the width is read. -/
theorem short?_padded {width places n : Nat} {rest : List Char} (hplaces : 0 < places)
    (hwidth : (Decimal.padded places n).length ≤ width) (hrest : ∀ c ∈ rest.head?, c.isDigit = false) :
    short? width (Decimal.padded places n ++ rest) = some (n, rest) := by
  have hlength := Decimal.le_length_padded places n
  have hne : Decimal.padded places n ≠ [] := by
    intro h
    rw [h, List.length_nil] at hlength
    omega
  rw [short?_append hne (fun c hc => Decimal.isDigit_of_mem_padded hc) hwidth hrest, Decimal.value_padded]

/-- A field of two digits is read up to a separator. -/
theorem field?_padded {n : Nat} {c : Char} {rest : List Char} (h : n < 100) (hc : c.isDigit = false) :
    field? (Decimal.padded 2 n ++ c :: rest) = some (n, c :: rest) := by
  have hlength : (Decimal.padded 2 n).length = 2 := Decimal.length_padded (by decide) h
  have hrest : ∀ d ∈ (c :: rest).head?, d.isDigit = false := by
    rintro d ⟨⟩
    exact hc
  obtain ⟨d, ds, hcons⟩ : ∃ d ds, Decimal.padded 2 n = d :: ds :=
    List.exists_cons_of_ne_nil (by rw [ne_eq, ← List.length_eq_zero_iff]; omega)
  have hdigit : d ∈ Decimal.padded 2 n := by
    rw [hcons]
    exact List.mem_cons_self
  have hdrop : dropBlanks (Decimal.padded 2 n ++ c :: rest) = Decimal.padded 2 n ++ c :: rest := by
    rw [hcons]
    exact dropBlanks_cons (isBlank_of_isDigit (Decimal.isDigit_of_mem_padded hdigit))
  rw [field?, hdrop]
  exact short?_padded (by decide) (Nat.le_of_eq hlength) hrest

/-- A fraction of three digits is read as milliseconds. -/
theorem fraction?_padded {ms : Nat} {rest : List Char} (h : ms < 1000) (hrest : ∀ c ∈ rest.head?, c.isDigit = false) :
    fraction? ('.' :: (Decimal.padded 3 ms ++ rest)) = some (ms * 1000000, rest) := by
  have hlength : (Decimal.padded 3 ms).length = 3 := Decimal.length_padded (by decide) h
  have hne : Decimal.padded 3 ms ≠ [] := by
    rw [ne_eq, ← List.length_eq_zero_iff]
    omega
  have hrun : (Decimal.padded 3 ms ++ rest).takeWhile Char.isDigit = Decimal.padded 3 ms :=
    Decimal.takeWhile_digits (fun c hc => Decimal.isDigit_of_mem_padded hc) hrest
  simp only [fraction?, hrun]
  rw [if_neg hne, List.drop_left, nanosOfFraction, List.take_of_length_le (by omega), hlength, Decimal.value_padded]

/-! ## What a timestamp shows -/

/-- What a timestamp shows of an instant: its milliseconds, where a leap second inside a minute counts as the second after it. -/
def carried (t : Instant) : Instant :=
  if h : t.IsCivil then t.toMillis
  else
    have hleap : 1000000000 ≤ t.nanos ∧ t.seconds % 60 ≠ 59 := by
      unfold IsCivil at h
      omega
    ⟨t.seconds + 1, (t.nanos - 1000000000) / 1000000 * 1000000, by have := t.first_le; omega, by have := t.le_last; omega,
      by have := t.nanos_lt; omega⟩

theorem carried_of_isCivil {t : Instant} (h : t.IsCivil) : t.carried = t.toMillis :=
  dif_pos h

/-- A leap second inside a minute shows as a second that is no leap second. -/
theorem carried_of_not_isCivil {t : Instant} (h : ¬ t.IsCivil) :
    t.carried.seconds = t.seconds + 1 ∧ t.carried.nanos = (t.nanos - 1000000000) / 1000000 * 1000000 := by
  rw [carried, dif_neg h]
  exact ⟨rfl, rfl⟩

/-- A timestamp shows the milliseconds of exactly those instants that are no leap second inside a minute. -/
theorem carried_eq_toMillis_iff {t : Instant} : t.carried = t.toMillis ↔ t.IsCivil := by
  refine ⟨?_, carried_of_isCivil⟩
  intro heq
  refine Decidable.byContradiction fun h => ?_
  have hsame : t.toMillis.seconds = t.seconds := rfl
  have hseconds := (carried_of_not_isCivil h).1
  rw [heq, hsame] at hseconds
  omega

/-- What a timestamp shows is an instant that a clock shows as no other, in whole milliseconds. -/
theorem carried_isCivil (t : Instant) : t.carried.IsCivil ∧ t.carried.toMillis = t.carried := by
  by_cases h : t.IsCivil
  · rw [carried_of_isCivil h]
    refine ⟨?_, toMillis_toMillis t⟩
    intro hleap
    exact h (Nat.le_trans hleap (Nat.div_mul_le_self ..))
  · obtain ⟨-, hnanos⟩ := carried_of_not_isCivil h
    have hlt := t.nanos_lt
    refine ⟨?_, ?_⟩
    · intro hleap
      omega
    · have hwhole : t.carried.nanos / 1000000 * 1000000 = t.carried.nanos := by omega
      exact Instant.ext rfl hwhole

/-- What is finer than a millisecond does not show in a timestamp. -/
theorem text_toMillis (t : Instant) : t.toMillis.text = t.text := by
  have hbillion : t.nanos / 1000000 * 1000000 / 1000000000 = t.nanos / 1000000000 := by omega
  have hmillis : t.nanos / 1000000 * 1000000 % 1000000000 / 1000000 = t.nanos % 1000000000 / 1000000 := by omega
  simp only [text, chars, date, secondOfDay, toMillis, hbillion, hmillis]

/-- A timestamp does not tell an instant from what it shows of it. -/
theorem text_carried (t : Instant) : t.carried.text = t.text := by
  by_cases h : t.IsCivil
  · rw [carried_of_isCivil h, text_toMillis]
  · obtain ⟨hseconds, hnanos⟩ := carried_of_not_isCivil h
    have hleap : 1000000000 ≤ t.nanos ∧ t.seconds % 60 ≠ 59 := by
      unfold IsCivil at h
      omega
    have hlt := t.nanos_lt
    -- The minute does not end with this second, so nothing above the second changes.
    have hdate : t.carried.date = t.date := by
      rw [date, date, hseconds]
      congr 1
      omega
    have hsecond : t.carried.secondOfDay = t.secondOfDay + 1 := by
      rw [secondOfDay, secondOfDay, hseconds]
      omega
    have hminute : t.secondOfDay % 60 ≠ 59 := by
      rw [secondOfDay]
      omega
    have hhour : (t.secondOfDay + 1) / 3600 = t.secondOfDay / 3600 := by omega
    have hminutes : (t.secondOfDay + 1) / 60 % 60 = t.secondOfDay / 60 % 60 := by omega
    have hseconds' : (t.secondOfDay + 1) % 60 + t.carried.nanos / 1000000000 = t.secondOfDay % 60 + t.nanos / 1000000000 := by
      omega
    have hmillis : t.carried.nanos % 1000000000 / 1000000 = t.nanos % 1000000000 / 1000000 := by omega
    simp only [text, chars, hdate, hsecond, hhour, hminutes, hseconds', hmillis]

/-! ## Calendar time -/

/-- The date and time of day of an instant, cut to milliseconds, stand for the instant, cut to milliseconds. -/
theorem ofCivil?_self {t : Instant} (hleap : t.IsCivil) :
    ofCivil? t.date (t.secondOfDay / 3600) (t.secondOfDay / 60 % 60) (t.secondOfDay % 60 + t.nanos / 1000000000)
      (t.nanos % 1000000000 / 1000000 * 1000000) 0 = some t.toMillis := by
  have hday : t.date.dayNumber = t.seconds / 86400 := Date.dayNumber_ofDayNumber _
  have hvalid : t.date.IsValid := Date.isValid_ofDayNumber _
  have hsecond : (t.secondOfDay : Int) = t.seconds % 86400 := Int.toNat_of_nonneg (by omega)
  have hnanos := t.nanos_lt
  unfold IsCivil at hleap
  have hbounds : t.secondOfDay / 3600 ≤ 23 ∧ t.secondOfDay / 60 % 60 ≤ 59 ∧
      t.secondOfDay % 60 + t.nanos / 1000000000 ≤ 60 ∧ t.nanos % 1000000000 / 1000000 * 1000000 < 1000000000 := by
    refine ⟨by omega, by omega, by omega, by omega⟩
  have hseconds : 86400 * t.date.dayNumber + ((3600 * (t.secondOfDay / 3600) + 60 * (t.secondOfDay / 60 % 60) +
      min (t.secondOfDay % 60 + t.nanos / 1000000000) 59 : Nat) : Int) - 0 = t.toMillis.seconds := by
    rw [hday]
    have hmin : min (t.secondOfDay % 60 + t.nanos / 1000000000) 59 = t.secondOfDay % 60 := by omega
    rw [hmin]
    simp only [toMillis]
    omega
  have hfraction : (if t.secondOfDay % 60 + t.nanos / 1000000000 = 60 then
      1000000000 + t.nanos % 1000000000 / 1000000 * 1000000 else t.nanos % 1000000000 / 1000000 * 1000000) =
      t.toMillis.nanos := by
    simp only [toMillis]
    split <;> omega
  rw [ofCivil?, if_pos ⟨hvalid, hbounds⟩]
  simp only [hseconds, hfraction]
  exact ofUnix?_self t.toMillis

/-! ## Timestamps -/

/-- The characters of a timestamp, from the year on to the final `Z`. -/
theorem chars_eq (t : Instant) : t.chars = yearChars t.date.year ++ '-' :: (Decimal.padded 2 t.date.month ++
    '-' :: (Decimal.padded 2 t.date.day ++ 'T' :: (Decimal.padded 2 (t.secondOfDay / 3600) ++
    ':' :: (Decimal.padded 2 (t.secondOfDay / 60 % 60) ++
    ':' :: (Decimal.padded 2 (t.secondOfDay % 60 + t.nanos / 1000000000) ++
    '.' :: (Decimal.padded 3 (t.nanos % 1000000000 / 1000000) ++ ['Z'])))))) := by
  simp only [chars, List.append_assoc, List.cons_append]

/-- Every field of a timestamp fits into its width. -/
theorem fields_lt (t : Instant) : t.date.month < 100 ∧ t.date.day < 100 ∧ t.secondOfDay / 3600 < 100 ∧
    t.secondOfDay / 60 % 60 < 100 ∧ t.secondOfDay % 60 + t.nanos / 1000000000 < 100 ∧
    t.nanos % 1000000000 / 1000000 < 1000 := by
  have hvalid : t.date.IsValid := Date.isValid_ofDayNumber _
  have hmonth := hvalid.month_le
  have hday := hvalid.day_le
  have hsecond : (t.secondOfDay : Int) = t.seconds % 86400 := Int.toNat_of_nonneg (by omega)
  have hnanos := t.nanos_lt
  omega

/-- A timestamp whose year has four digits is read by fields of fixed width. -/
theorem ofTimestamp?_chars {t : Instant} (hcivil : t.IsCivil) (h : 0 ≤ t.date.year ∧ t.date.year ≤ 9999) :
    ofTimestamp? t.chars = some t.toMillis := by
  obtain ⟨hmonth, hday, hhour, hminute, hsecond, hms⟩ := t.fields_lt
  have hyear : t.date.year.toNat < Nat.pow 10 4 := by
    change t.date.year.toNat < 10000
    omega
  have hdate : (⟨(t.date.year.toNat : Int), t.date.month, t.date.day⟩ : Date) = t.date := by
    rw [Int.toNat_of_nonneg h.1]
  have htwo : ∀ {n : Nat} (rest : List Char), n < 100 → fixed? 2 (Decimal.padded 2 n ++ rest) = some (n, rest) := by
    intro n rest hn
    exact fixed?_padded rest (by decide) hn
  have hfraction : fraction? ('.' :: (Decimal.padded 3 (t.nanos % 1000000000 / 1000000) ++ ['Z'])) =
      some (t.nanos % 1000000000 / 1000000 * 1000000, ['Z']) := fraction?_padded hms (by simp)
  have hwidth : 0 < 4 := by decide
  rw [chars_eq, yearChars, if_pos h]
  simp only [ofTimestamp?, fixed?_padded _ hwidth hyear, char?, if_true, htwo _ hmonth, htwo _ hday,
    htwo _ hhour, htwo _ hminute, htwo _ hsecond, hfraction, offset?,
    Option.bind_eq_bind, Option.bind_some, Option.orElse_eq_orElse, Option.orElse_eq_or, Option.some_or, hdate]
  exact ofCivil?_self hcivil

/-- A sign before the year is read, and then as many digits as there are. -/
theorem year?_chars {year : Int} {c : Char} {rest : List Char} (h : ¬ (0 ≤ year ∧ year ≤ 9999)) (hc : c.isDigit = false) :
    year? (dropBlanks (yearChars year ++ c :: rest)) = some (year, c :: rest) := by
  have hrest : ∀ d ∈ (c :: rest).head?, d.isDigit = false := by
    rintro d ⟨⟩
    exact hc
  have hread : ∀ width, (Decimal.padded 4 year.natAbs ++ c :: rest).length ≤ width →
      short? width (Decimal.padded 4 year.natAbs ++ c :: rest) = some (year.natAbs, c :: rest) := by
    intro width hwidth
    rw [List.length_append] at hwidth
    exact short?_padded (by decide) (by omega) hrest
  rw [yearChars, if_neg h, List.cons_append]
  split
  · rename_i hneg
    rw [dropBlanks_cons (by decide), year?, hread _ (Nat.le_refl _), Option.map_some]
    simp only [Option.some.injEq, Prod.mk.injEq, and_true]
    omega
  · rename_i hneg
    rw [dropBlanks_cons (by decide), year?, hread _ (Nat.le_refl _), Option.map_some]
    simp only [Option.some.injEq, Prod.mk.injEq, and_true]
    omega

/-- A timestamp whose year has a sign is read by the expanded form. -/
theorem ofExpanded?_chars {t : Instant} (hcivil : t.IsCivil) (h : ¬ (0 ≤ t.date.year ∧ t.date.year ≤ 9999)) :
    ofExpanded? t.chars.dropLast = some t.toMillis := by
  obtain ⟨hmonth, hday, hhour, hminute, hsecond, hms⟩ := t.fields_lt
  have hfraction : fraction? ('.' :: (Decimal.padded 3 (t.nanos % 1000000000 / 1000000) ++ [])) =
      some (t.nanos % 1000000000 / 1000000 * 1000000, []) := fraction?_padded hms (by simp)
  have hlast : t.chars.dropLast = yearChars t.date.year ++ '-' :: (Decimal.padded 2 t.date.month ++
      '-' :: (Decimal.padded 2 t.date.day ++ 'T' :: (Decimal.padded 2 (t.secondOfDay / 3600) ++
      ':' :: (Decimal.padded 2 (t.secondOfDay / 60 % 60) ++
      ':' :: (Decimal.padded 2 (t.secondOfDay % 60 + t.nanos / 1000000000) ++
      '.' :: (Decimal.padded 3 (t.nanos % 1000000000 / 1000000) ++ [])))))) := by
    rw [List.append_nil, chars, List.dropLast_concat]
    simp only [List.append_assoc, List.cons_append]
  rw [hlast]
  have hdash : '-'.isDigit = false := rfl
  have hcolon : ':'.isDigit = false := rfl
  have htime : 'T'.isDigit = false := rfl
  have hpoint : '.'.isDigit = false := rfl
  simp only [ofExpanded?, year?_chars h hdash, char?, if_true, field?_padded hmonth hdash,
    field?_padded hday htime, field?_padded hhour hcolon, field?_padded hminute hcolon,
    field?_padded hsecond hpoint, hfraction, Option.bind_eq_bind, Option.bind_some]
  exact ofCivil?_self hcivil

/-- The timestamp of an instant that a clock shows as no other is read as that instant, cut to milliseconds. -/
theorem parse?_text_of_isCivil {t : Instant} (hcivil : t.IsCivil) : parse? t.text = some t.toMillis := by
  rw [parse?, text, String.toList_ofList]
  by_cases h : 0 ≤ t.date.year ∧ t.date.year ≤ 9999
  · simp only [ofTimestamp?_chars hcivil h, Option.orElse_eq_orElse, Option.orElse_eq_or, Option.some_or]
  · have hnone : ofTimestamp? t.chars = none := by
      rw [chars_eq, yearChars, if_neg h, List.cons_append, ofTimestamp?]
      have hsign : (if t.date.year < 0 then '-' else '+').isDigit = false := by
        split <;> rfl
      have hwidth : 0 < 4 := by decide
      simp [fixed?_eq_none hwidth hsign]
    have hlast : t.chars.getLast? = some 'Z' := List.getLast?_concat
    simp only [hnone, hlast, if_true, ofExpanded?_chars hcivil h, Option.orElse_eq_orElse, Option.orElse_eq_or, Option.none_or]

/-- The timestamp of an instant is read as what it shows of the instant. -/
theorem parse?_text (t : Instant) : parse? t.text = some t.carried := by
  obtain ⟨hcivil, hwhole⟩ := t.carried_isCivil
  rw [← text_carried, parse?_text_of_isCivil hcivil, hwhole]

end Instant

end Keyset
