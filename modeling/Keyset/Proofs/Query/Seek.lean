import Keyset.Proofs.Boundary.OneZero
import Keyset.Proofs.Query.Cursor
import Keyset.Proofs.Walk.LeapSecond

/-!
# The condition and the order of a query

Which rows meet the condition of the query behind the token of a row, against the order of that query. With values that the token
carries as they are these are the rows that stand behind the row when the two zeros are taken for one (`Query.seek_iff_oneZero_lt`).
With instants that the token cuts, the two may differ, but to one side only in each direction and only on rows with a sort value in
the same millisecond (`Query.seek_of_cut`). A leap second inside a minute upsets both.
-/

namespace Keyset.Query

variable [DecidableEq κ] [Row ρ]

/-- The query behind the token of a row, with the two zeros taken for one: a row meets its condition when it stands behind that row
in its order. Without the two zeros in one column it is so with the values as they are. The row holds no leap second inside a
minute. -/
theorem seek_iff_oneZero_lt (d : Definition κ) (sort : SortBy κ) (hexposed : sort.key ∈ d.table.exposed) (limit : UInt32)
    (a r : ρ) (boundary own : Boundary) (ha : Boundary.ofRow? (d.table.column sort.key) d.identity a = some boundary)
    (hr : Boundary.ofRow? (d.table.column sort.key) d.identity r = some own) (h : own.Comparable boundary)
    (hwhole : boundary.value.IsWhole ∧ boundary.id.IsWhole) (hcivil : boundary.IsCivil)
    (hfits : boundary.token.utf8ByteSize ≤ Boundary.maxTokenLength) :
    ∃ q condition, ofListing d (.byCursor sort limit (some boundary.token)) = .ok q ∧ q.seek = some condition ∧
      (condition.holds r = true ↔ q.order.compare (OneZero.mk a) (OneZero.mk r) = .lt) ∧
      (¬ own.HaveZeros boundary → (condition.holds r = true ↔ q.order.compare a r = .lt)) := by
  have hq := ofListing_token d sort hexposed limit boundary
  rw [if_pos hfits] at hq
  refine ⟨_, _, hq, rfl, Boundary.holds_seek_iff_oneZero_lt ha hr h hwhole hcivil, ?_⟩
  intro hzeros
  exact Boundary.holds_seek_iff_row_lt ha hr h hwhole hcivil hzeros

/-- The negative zero meets the condition behind the zero when its identity is greater. -/
theorem seek_iff_oneZero_lt_zeros :
    ∃ q condition, ofListing Sample.readings (.byCursor ⟨true, .asc⟩ 10 (some (Boundary.token ⟨.number .zero, .text "1"⟩))) = .ok q ∧
      q.seek = some condition ∧ condition.holds (Sample.reading 1 0 .negativeZero "2") = true := by
  obtain ⟨q, condition, hq, hseek, hiff, -⟩ := seek_iff_oneZero_lt Sample.readings ⟨true, .asc⟩ (by decide) 10
    (Sample.reading 0 0 .zero "1") (Sample.reading 1 0 .negativeZero "2") ⟨.number .zero, .text "1"⟩
    ⟨.number .negativeZero, .text "2"⟩ rfl rfl ⟨.of_number rfl rfl, .of_text "2" "1"⟩
    ⟨Value.isWhole_of_kind nofun, Value.isWhole_of_kind nofun⟩ ⟨Value.isCivil_of_kind nofun, Value.isCivil_of_kind nofun⟩ (by decide)
  refine ⟨q, condition, hq, hseek, hiff.2 ?_⟩
  rw [Definition.order_eq_walkOrder hq]
  decide

/-- The zero with a lesser identity stands behind the negative zero, but does not meet the condition behind it. -/
theorem seek_misses_zero :
    ∃ q condition, ofListing Sample.readings (.byCursor ⟨true, .asc⟩ 10 (some (Boundary.token ⟨.number .negativeZero, .text "2"⟩))) =
        .ok q ∧
      q.seek = some condition ∧
      q.order.compare (Sample.reading 0 0 .negativeZero "2") (Sample.reading 1 0 .zero "1") = .lt ∧
      condition.holds (Sample.reading 1 0 .zero "1") = false := by
  have hexposed : true ∈ Sample.readings.table.exposed := by decide
  have hfits : (Boundary.token ⟨.number .negativeZero, .text "2"⟩).utf8ByteSize ≤ Boundary.maxTokenLength := by decide
  have hq := ofListing_token Sample.readings ⟨true, .asc⟩ hexposed 10 ⟨.number .negativeZero, .text "2"⟩
  rw [if_pos hfits] at hq
  exact ⟨_, _, hq, rfl, by decide, by decide⟩

/-- The query behind the token of a row whose instants the token cuts: in ascending order no row that stands behind that row is left
out, in descending order no other row is let in, and rows for which the condition and the order differ have a sort value in the same
millisecond. So it is unless the row holds a leap second inside a minute. -/
theorem seek_of_cut (d : Definition κ) (sort : SortBy κ) (hexposed : sort.key ∈ d.table.exposed) (limit : UInt32)
    (a r : ρ) (boundary own : Boundary) (ha : Boundary.ofRow? (d.table.column sort.key) d.identity a = some boundary)
    (hr : Boundary.ofRow? (d.table.column sort.key) d.identity r = some own) (h : own.Comparable boundary)
    (hzeros : ¬ own.HaveZeros boundary) (hcivil : boundary.IsCivil)
    (hfits : boundary.token.utf8ByteSize ≤ Boundary.maxTokenLength) :
    ∃ q condition, ofListing d (.byCursor sort limit (some boundary.token)) = .ok q ∧ q.seek = some condition ∧
      (sort.direction = .asc → q.order.compare a r = .lt → condition.holds r = true) ∧
      (sort.direction = .desc → condition.holds r = true → q.order.compare a r = .lt) ∧
      (¬ (condition.holds r = true ↔ q.order.compare a r = .lt) → own.value.cut = boundary.value.cut) := by
  have hq := ofListing_token d sort hexposed limit boundary
  have horder : (d.walkOrder sort).compare a r = boundary.compare sort.direction own := Boundary.compare_rows ha hr
  have hseek : (boundary.carried.seek (d.table.column sort.key) d.identity sort.direction).holds r = true ↔
      boundary.carried.compare sort.direction own = .lt := Boundary.holds_seek_iff_lt hr h hzeros
  rw [if_pos hfits] at hq
  refine ⟨_, _, hq, rfl, ?_⟩
  rw [horder, hseek]
  refine ⟨?_, ?_, Boundary.cut_value_eq h hcivil⟩
  · intro hasc
    rw [hasc]
    exact Boundary.carried_lt_of_lt h hcivil
  · intro hdesc
    rw [hdesc]
    exact Boundary.lt_of_carried_lt h hcivil

/-- A reading that follows another in the same millisecond meets the condition behind it. -/
theorem seek_of_cut_readings :
    ∃ q condition, ofListing Sample.readings (.byCursor ⟨false, .asc⟩ 10
        (some (Boundary.token ⟨.date (Sample.moment 5400000), .text "2"⟩))) = .ok q ∧
      q.seek = some condition ∧ condition.holds (Sample.reading 1 5450000 .zero "1") = true := by
  have hzeros : ¬ Boundary.HaveZeros ⟨.date (Sample.moment 5450000), .text "1"⟩ ⟨.date (Sample.moment 5400000), .text "2"⟩ := by
    unfold Boundary.HaveZeros Value.AreZeros
    decide
  have hcivil : Boundary.IsCivil ⟨.date (Sample.moment 5400000), .text "2"⟩ := by
    refine ⟨?_, Value.isCivil_of_kind nofun⟩
    rintro t ⟨⟩
    decide
  obtain ⟨q, condition, hq, hseek, hasc, -⟩ := seek_of_cut Sample.readings ⟨false, .asc⟩ (by decide) 10
    (Sample.reading 0 5400000 .zero "2") (Sample.reading 1 5450000 .zero "1") ⟨.date (Sample.moment 5400000), .text "2"⟩
    ⟨.date (Sample.moment 5450000), .text "1"⟩ rfl rfl ⟨.of_date _ _, .of_text "1" "2"⟩ hzeros hcivil (by decide)
  refine ⟨q, condition, hq, hseek, hasc rfl ?_⟩
  rw [Definition.order_eq_walkOrder hq]
  decide

/-- Behind a leap second inside a minute, the ascending condition leaves out a reading that stands behind it, and the descending one lets
in the reading at the leap second itself; the reading that is left out is not in the same millisecond. -/
theorem seek_of_cut_leap :
    let leap := Sample.bareReading 0 Sample.leapSecond "1"
    let next := Sample.bareReading 1 (Sample.dayMoment 86165 100000000) "2"
    (∃ q condition, ofListing Sample.readings (.byCursor ⟨false, .asc⟩ 10 (some Sample.leapBoundary.token)) = .ok q ∧
      q.seek = some condition ∧ q.order.compare leap next = .lt ∧ condition.holds next = false) ∧
    (∃ q condition, ofListing Sample.readings (.byCursor ⟨false, .desc⟩ 10 (some Sample.leapBoundary.token)) = .ok q ∧
      q.seek = some condition ∧ condition.holds leap = true ∧ q.order.compare leap leap ≠ .lt) ∧
    Value.cut (.date (Sample.dayMoment 86165 100000000)) ≠ Sample.leapBoundary.value.cut := by
  intro leap next
  have hquery : ∀ direction, ofListing Sample.readings (.byCursor ⟨false, direction⟩ 10 (some Sample.leapBoundary.token)) =
      .ok ⟨Sample.readings.walkOrder ⟨false, direction⟩, ⟨"id"⟩,
        .behind ⟨false, direction⟩ ⟨"time"⟩ (some (Sample.leapBoundary.carried.seek ⟨"time"⟩ ⟨"id"⟩ direction)) 10⟩ := by
    intro direction
    have hq := ofListing_token Sample.readings ⟨false, direction⟩ (by decide : false ∈ Sample.readings.table.exposed) 10
      Sample.leapBoundary
    rw [if_pos Sample.leapBoundary_fits] at hq
    exact hq
  exact ⟨⟨_, _, hquery .asc, rfl, by decide, by decide⟩, ⟨_, _, hquery .desc, rfl, by decide, by decide⟩, by decide⟩

end Keyset.Query
