import Keyset.Proofs.Sample
import Keyset.Proofs.Walk.Regular

/-!
# Leap seconds inside a minute

The token of a row at a leap second inside a minute carries the second after it, which is behind the row. So an ascending walk passes
over the rows between the two (`Definition.not_mem_of_visit_leap`), and a descending walk does not get past the row
(`Definition.exists_not_lt_of_visit_leap`). Two walks of single rows show both.
-/

namespace Keyset

open Std

/-! ## Boundaries -/

/-- A leap second inside a minute is carried as a later instant. -/
theorem Value.lt_carried {v : Value} (hleap : ¬ v.IsCivil) : v.compare? v.carried = some .lt := by
  cases v with
  | text s => exact (hleap (isCivil_of_kind nofun)).elim
  | number x => exact (hleap (isCivil_of_kind nofun)).elim
  | date t =>
    have ht : ¬ t.IsCivil := by
      intro ht
      refine hleap ?_
      rintro t' ⟨⟩
      exact ht
    have hseconds : Ord.compare t.seconds t.carried.seconds = .lt := by
      rw [(Instant.carried_of_not_isCivil ht).1]
      exact Int.compare_eq_lt.2 (Int.lt_succ t.seconds)
    rw [carried, compare?, Instant.compare, hseconds]
    rfl

namespace Boundary

variable [Row ρ] {boundary : Boundary} {column identity : Column} {r : ρ}

/-- In descending order a row at a leap second inside a minute meets the condition behind itself. -/
theorem holds_seek_self (hr : ofRow? column identity r = some boundary) (hleap : ¬ boundary.value.IsCivil) :
    (boundary.carried.seek column identity .desc).holds r = true :=
  holds_seek.2 ⟨boundary.value, (ofRow?_eq_some hr).1, .inl (Value.lt_carried hleap)⟩

/-- In ascending order a row before what the cursor carries does not meet the condition. -/
theorem not_holds_seek_of_lt {v : Value} (hr : Row.field r column = some v) (hlt : v.compare? boundary.value.carried = some .lt) :
    (boundary.carried.seek column identity .asc).holds r = false := by
  rw [Bool.eq_false_iff]
  intro hholds
  obtain ⟨w, hw, hcases⟩ := holds_seek.1 hholds
  cases hr.symm.trans hw
  rw [carried, hlt] at hcases
  rcases hcases with hbehind | ⟨heq, -⟩
  · cases hbehind
  · cases heq

end Boundary

/-! ## Visits -/

namespace Definition

variable [DecidableEq κ] [Row ρ] {d : Definition κ} {sort : SortBy κ} {limit : UInt32} {filter : Option Predicate} {rows : List ρ}
  {boundary : Boundary} {page : Page ρ CursorInfo}

/-- An ascending visit passes over the rows that are before what its token carries, also those behind the row of the token. -/
theorem not_mem_of_visit_leap (hdirection : sort.direction = .asc)
    (hpage : d.visit sort limit filter rows (some boundary.token) = .ok page) {r : ρ} {v : Value}
    (hr : Row.field r (d.table.column sort.key) = some v) (hlt : v.compare? boundary.value.carried = some .lt) : r ∉ page.data := by
  intro hmem
  rw [eq_first_of_visit hpage] at hmem
  have hholds := (mem_behind.1 (Page.mem_of_mem_first hmem)).2.2
  rw [Predicate.admits, hdirection, Boundary.not_holds_seek_of_lt hr hlt] at hholds
  cases hholds

/-- A descending visit with the token of a row at a leap second inside a minute serves a row that is not behind that row. -/
theorem exists_not_lt_of_visit_leap (hdirection : sort.direction = .desc) (hlimit : 1 ≤ limit.toNat)
    (hpage : d.visit sort limit filter rows (some boundary.token) = .ok page) {a : ρ} (ha : a ∈ rows)
    (hadmits : Predicate.admits filter a = true)
    (hb : Boundary.ofRow? (d.table.column sort.key) d.identity a = some boundary) (hleap : ¬ boundary.value.IsCivil) :
    ∃ r ∈ page.data, (d.walkOrder sort).compare a r ≠ .lt := by
  have hseek : (boundary.carried.seek (d.table.column sort.key) d.identity sort.direction).holds a = true := by
    rw [hdirection]
    exact Boundary.holds_seek_self hb hleap
  have hmem : a ∈ d.behind sort filter (some (boundary.carried.seek (d.table.column sort.key) d.identity sort.direction)) rows :=
    mem_behind.2 ⟨ha, hadmits, hseek⟩
  have hsorted := (d.walkOrder sort).pairwise_sort ((rows.filter (Predicate.admits filter)).filter
    (Predicate.admits (some (boundary.carried.seek (d.table.column sort.key) d.identity sort.direction))))
  rw [← behind] at hsorted
  rw [eq_first_of_visit hpage]
  -- The row is among those that are served from, so the first of these is not behind it.
  cases hrows : d.behind sort filter (some (boundary.carried.seek (d.table.column sort.key) d.identity sort.direction)) rows with
  | nil =>
    rw [hrows] at hmem
    cases hmem
  | cons first rest =>
    rw [hrows] at hmem hsorted
    refine ⟨first, ?_, ?_⟩
    · obtain ⟨n, hn⟩ := Nat.exists_eq_add_of_le' hlimit
      rw [Page.first, hn, List.take_succ_cons]
      exact List.mem_cons_self
    · intro hlt
      rcases List.mem_cons.1 hmem with rfl | hmem
      · exact OrientedCmp.not_lt_of_lt hlt hlt
      · have hle := (List.pairwise_cons.1 hsorted).1 a hmem
        have hself := TransCmp.lt_of_lt_of_isLE hlt hle
        exact OrientedCmp.not_lt_of_lt hself hself

end Definition

/-! ## Two walks -/

namespace Sample

theorem leapBoundary_fits : leapBoundary.token.utf8ByteSize ≤ Boundary.maxTokenLength := by
  decide

/-- The readings from the leap second on are regular rows, only that they are not without leap seconds inside a minute. -/
theorem regular_fromLeapSecond {held : Record → Prop} (h : ∀ r, held r → r ∈ fromLeapSecond) :
    Regular held ⟨"time"⟩ ⟨"id"⟩ := by
  have hread : ∀ r, held r → ∃ label time id, r = bareReading label time id ∧ time.toMillis = time ∧
      (Boundary.token ⟨.date time, .text id⟩).utf8ByteSize ≤ Boundary.maxTokenLength := by
    intro r hr
    have hmem := h r hr
    simp only [fromLeapSecond, List.mem_cons, List.not_mem_nil, or_false] at hmem
    rcases hmem with rfl | rfl | rfl
    · exact ⟨0, leapSecond, "1", rfl, by decide, by decide⟩
    · exact ⟨1, dayMoment 86165 100000000, "2", rfl, by decide, by decide⟩
    · exact ⟨2, dayMoment 86166 0, "3", rfl, by decide, by decide⟩
  constructor
  · intro r hr
    obtain ⟨label, time, id, rfl, -⟩ := hread r hr
    exact ⟨rfl, rfl⟩
  · refine Value.orderly_of_date ?_
    rintro v ⟨r, hr, hv⟩
    obtain ⟨label, time, id, rfl, hwhole, -⟩ := hread r hr
    cases hv
    exact ⟨time, rfl, hwhole⟩
  · refine Value.orderly_of_text ?_
    rintro v ⟨r, hr, hv⟩
    obtain ⟨label, time, id, rfl, -⟩ := hread r hr
    cases hv
    exact ⟨id, rfl⟩
  · intro r boundary hr hb
    obtain ⟨label, time, id, rfl, -, hfits⟩ := hread r hr
    cases hb
    exact hfits

/-- In ascending order, one reading on a page, the reading behind the leap second comes on no page. -/
theorem run_fromLeapSecond (visits : Nat) :
    Walk.run (fun _ => readings.visit ⟨false, .asc⟩ 1 none fromLeapSecond) (visits + 2) 0 none =
      ⟨[⟨[bareReading 0 leapSecond "1"], ⟨true, some leapBoundary.token⟩⟩,
        ⟨[bareReading 2 (dayMoment 86166 0) "3"], ⟨false, none⟩⟩], none, none⟩ := by
  have hexposed : false ∈ readings.table.exposed := by decide
  have hsorted : fromLeapSecond.Pairwise fun r s => ((readings.walkOrder ⟨false, .asc⟩).compare r s).isLE = true := by decide
  have hfirst : readings.visit ⟨false, .asc⟩ 1 none fromLeapSecond none =
      .ok ⟨[bareReading 0 leapSecond "1"], ⟨true, some leapBoundary.token⟩⟩ := by
    rw [Definition.visit_none_eq hexposed, Definition.behind_of_pairwise hsorted]
    rfl
  have hsecond : readings.visit ⟨false, .asc⟩ 1 none fromLeapSecond (some leapBoundary.token) =
      .ok ⟨[bareReading 2 (dayMoment 86166 0) "3"], ⟨false, none⟩⟩ := by
    rw [Definition.visit_token_eq hexposed _ _ _ leapBoundary_fits, Definition.behind_of_pairwise hsorted]
    rfl
  rw [Walk.run_of_next _ hfirst rfl, Walk.run_of_last _ hsecond rfl]

/-- In descending order, one reading on a page, the reading at the leap second comes on every page but the first. -/
theorem run_backToLeapSecond (visits : Nat) :
    Walk.run (fun _ => readings.visit ⟨false, .desc⟩ 1 none backToLeapSecond) (visits + 2) 0 none =
      ⟨⟨[bareReading 0 (dayMoment 86166 0) "3"], ⟨true, some laterBoundary.token⟩⟩ ::
        List.replicate (visits + 1) ⟨[bareReading 1 leapSecond "1"], ⟨true, some leapBoundary.token⟩⟩, none,
        some leapBoundary.token⟩ := by
  have hexposed : false ∈ readings.table.exposed := by decide
  have hsorted : backToLeapSecond.Pairwise fun r s => ((readings.walkOrder ⟨false, .desc⟩).compare r s).isLE = true := by decide
  have hfits : laterBoundary.token.utf8ByteSize ≤ Boundary.maxTokenLength := by decide
  have hfirst : readings.visit ⟨false, .desc⟩ 1 none backToLeapSecond none =
      .ok ⟨[bareReading 0 (dayMoment 86166 0) "3"], ⟨true, some laterBoundary.token⟩⟩ := by
    rw [Definition.visit_none_eq hexposed, Definition.behind_of_pairwise hsorted]
    rfl
  have hsecond : readings.visit ⟨false, .desc⟩ 1 none backToLeapSecond (some laterBoundary.token) =
      .ok ⟨[bareReading 1 leapSecond "1"], ⟨true, some leapBoundary.token⟩⟩ := by
    rw [Definition.visit_token_eq hexposed _ _ _ hfits, Definition.behind_of_pairwise hsorted]
    rfl
  have hagain : readings.visit ⟨false, .desc⟩ 1 none backToLeapSecond (some leapBoundary.token) =
      .ok ⟨[bareReading 1 leapSecond "1"], ⟨true, some leapBoundary.token⟩⟩ := by
    rw [Definition.visit_token_eq hexposed _ _ _ leapBoundary_fits, Definition.behind_of_pairwise hsorted]
    rfl
  rw [Walk.run_of_next _ hfirst rfl, Walk.run_of_next _ hsecond rfl, Walk.run_of_same (fun _ => hagain) rfl, List.replicate_succ]

end Sample

end Keyset
