import Keyset.Proofs.Walk.LeapSecond

/-!
# Rows that stay are served

Between the visits of a walk the rows may change in any way, the row that the cursor comes from included. A row that is there at
every visit is either served by a page or still ahead of the client (`Walk.mem_rows_of_run`), so a walk that comes to its end has
served it (`Walk.persistent_row_served`).
-/

namespace Keyset

open Std

variable [DecidableEq κ] [Row ρ]

namespace Walk

omit [DecidableEq κ] [Row ρ] in
/-- Behind a page with a cursor the last page is that of the pages that follow. -/
theorem getLast?_of_cons {page p : Page ρ CursorInfo} {pages : List (Page ρ CursorInfo)}
    (hnext : page.pagination.nextCursor ≠ none) (hp : (page :: pages).getLast? = some p)
    (hend : p.pagination.nextCursor = none) : pages.getLast? = some p := by
  cases pages with
  | nil =>
    cases hp
    exact absurd hend hnext
  | cons page' pages => exact hp

variable {d : Definition κ} {sort : SortBy κ} {held : ρ → Prop} {limit : Nat → UInt32} {filter : Option Predicate}
  {rows : Nat → List ρ}

/-- A walk from a position does not fail, and when it comes to its end it has served the rows behind the position that were there
at every visit. -/
theorem mem_rows_of_run (h : Regular held (d.table.column sort.key) d.identity)
    (hcivil : Civil held (d.table.column sort.key) d.identity) (hexposed : sort.key ∈ d.table.exposed) (visits number : Nat)
    (hlimit : ∀ j, number ≤ j → j < number + visits → 1 ≤ (limit j).toNat ∧ (limit j).toNat < 4294967295)
    (hrows : ∀ j, number ≤ j → j < number + visits → ∀ r ∈ rows j, Predicate.admits filter r = true → held r)
    (hdistinct : ∀ j, number ≤ j → j < number + visits → ((rows j).filter (Predicate.admits filter)).Pairwise fun r s =>
      Row.field r d.identity ≠ Row.field s d.identity)
    (position : Option ρ) (hposition : ∀ a ∈ position, held a) :
    let walk := run (fun j => d.visit sort (limit j) filter (rows j)) visits number (d.cursorAt sort position)
    walk.error = none ∧ ∀ p, walk.pages.getLast? = some p → p.pagination.nextCursor = none →
      ∀ r, (∀ j, number ≤ j → j < number + walk.pages.length → r ∈ rows j) → Predicate.admits filter r = true →
        (∀ a ∈ position, (d.walkOrder sort).compare a r = .lt) → r ∈ walk.rows := by
  induction visits generalizing number position with
  | zero =>
    refine ⟨rfl, ?_⟩
    intro p hp
    cases hp
  | succ visits ih =>
    have hnow := hrows number (Nat.le_refl _) (by omega)
    have hvisit := h.visit_cursorAt hcivil hexposed hposition hnow (limit number)
    rcases h.first_ahead_cases position hnow (hlimit number (Nat.le_refl _) (by omega)) with
      ⟨-, hpage⟩ | ⟨-, last, boundary, hlast, hheld, hcursor, hpage⟩
    · rw [hpage] at hvisit
      rw [run_of_last visits hvisit rfl]
      refine ⟨rfl, ?_⟩
      intro p _ _ r hstays hadmits hbehind
      have hmem : r ∈ d.ahead sort filter position (rows number) :=
        Definition.mem_ahead.2 ⟨hstays number (Nat.le_refl _) (by simp), hadmits, hbehind⟩
      simpa [Walk.rows] using hmem
    · rw [hpage, hcursor] at hvisit
      rw [run_of_next visits hvisit rfl, ← hcursor]
      have hlast' : ∀ a ∈ some last, held a := by
        intro a ha
        rw [← Option.mem_some.1 ha]
        exact hheld
      obtain ⟨herror, hserved⟩ := ih (number + 1) (fun j hle hlt => hlimit j (by omega) (by omega))
        (fun j hle hlt => hrows j (by omega) (by omega)) (fun j hle hlt => hdistinct j (by omega) (by omega))
        (some last) hlast'
      refine ⟨herror, ?_⟩
      intro p hp hend r hstays hadmits hbehind
      have hnext : d.cursorAt sort (some last) ≠ none := by
        rw [hcursor]
        exact Option.some_ne_none _
      have hmem : r ∈ d.ahead sort filter position (rows number) :=
        Definition.mem_ahead.2 ⟨hstays number (Nat.le_refl _) (by simp), hadmits, hbehind⟩
      rw [Walk.rows, List.flatMap_cons]
      rcases Definition.mem_take_or_lt sort (hdistinct number (Nat.le_refl _) (by omega)) hlast hmem with hnow | hlater
      · exact List.mem_append_left _ hnow
      · refine List.mem_append_right _ (hserved p (getLast?_of_cons hnext hp hend) hend r ?_ hadmits ?_)
        · intro j hle hlt
          refine hstays j (by omega) ?_
          rw [List.length_cons]
          omega
        · intro a ha
          rw [← Option.mem_some.1 ha]
          exact hlater

/-- Whatever is inserted, deleted or changed between the visits, and whatever limit each of them has: a walk does not fail, and one
whose last page has no cursor has served every row that was there at all of its visits. All rows together are regular and hold no
leap seconds inside a minute. -/
theorem persistent_row_served (d : Definition κ) (sort : SortBy κ) (hexposed : sort.key ∈ d.table.exposed) (visits : Nat)
    (rows : Nat → List ρ) (limit : Nat → UInt32) (hlimit : ∀ j < visits, 1 ≤ (limit j).toNat ∧ (limit j).toNat < 4294967295)
    (filter : Option Predicate)
    (hregular : Regular (fun r => ∃ j < visits, r ∈ rows j ∧ Predicate.admits filter r = true) (d.table.column sort.key) d.identity)
    (hcivil : Civil (fun r => ∃ j < visits, r ∈ rows j ∧ Predicate.admits filter r = true) (d.table.column sort.key) d.identity)
    (hdistinct : ∀ j < visits, ((rows j).filter (Predicate.admits filter)).Pairwise fun r s =>
      Row.field r d.identity ≠ Row.field s d.identity) :
    let walk := run (fun j => d.visit sort (limit j) filter (rows j)) visits 0 none
    walk.error = none ∧ ∀ p, walk.pages.getLast? = some p → p.pagination.nextCursor = none →
      ∀ r, (∀ j < walk.pages.length, r ∈ rows j) → Predicate.admits filter r = true → r ∈ walk.rows := by
  have hrows : ∀ j, 0 ≤ j → j < 0 + visits → ∀ r ∈ rows j, Predicate.admits filter r = true →
      ∃ j < visits, r ∈ rows j ∧ Predicate.admits filter r = true := by
    intro j _ hlt r hr hadmits
    exact ⟨j, by omega, hr, hadmits⟩
  have hposition : ∀ a ∈ (none : Option ρ), ∃ j < visits, a ∈ rows j ∧ Predicate.admits filter a = true := by
    rintro a ⟨⟩
  obtain ⟨herror, hserved⟩ := mem_rows_of_run hregular hcivil hexposed visits 0 (fun j _ hlt => hlimit j (by omega)) hrows
    (fun j _ hlt => hdistinct j (by omega)) none hposition
  refine ⟨herror, ?_⟩
  intro p hp hend r hstays hadmits
  refine hserved p hp hend r ?_ hadmits ?_
  · intro j _ hlt
    rw [Nat.zero_add] at hlt
    exact hstays j hlt
  · rintro a ⟨⟩

end Walk

/-- Between two visits one person goes, another comes, and the third stays. -/
def Sample.replaced : Nat → List Record
  | 0 => [person 0 "ann" "1", person 1 "cid" "3"]
  | _ => [person 2 "abe" "2", person 1 "cid" "3"]

/-- The walk of two visits, of one row each, through the two states. -/
theorem Walk.persistent_row_served_replaced :
    let walk := run (fun j => Sample.people.visit ⟨(), .asc⟩ 1 none (Sample.replaced j)) 2 0 none
    walk.error = none ∧ ∀ p, walk.pages.getLast? = some p → p.pagination.nextCursor = none →
      ∀ r, (∀ j < walk.pages.length, r ∈ Sample.replaced j) → Predicate.admits none r = true → r ∈ walk.rows := by
  have hstates : ∀ r, (∃ j < 2, r ∈ Sample.replaced j ∧ Predicate.admits none r = true) → Sample.IsBrief r := by
    rintro r ⟨j, hj, hr, -⟩
    match j, hj with
    | 0, _ =>
      rcases List.mem_pair.1 hr with rfl | rfl
      · exact ⟨0, "ann", "1", rfl, by decide⟩
      · exact ⟨1, "cid", "3", rfl, by decide⟩
    | 1, _ =>
      rcases List.mem_pair.1 hr with rfl | rfl
      · exact ⟨2, "abe", "2", rfl, by decide⟩
      · exact ⟨1, "cid", "3", rfl, by decide⟩
  refine persistent_row_served Sample.people ⟨(), .asc⟩ (List.mem_singleton.2 rfl) 2 Sample.replaced (fun _ => 1)
    (fun _ _ => by decide) none (Sample.regular_people hstates) (Sample.civil_people hstates) ?_
  intro j hj
  match j, hj with
  | 0, _ => exact (by decide)
  | 1, _ => exact (by decide)

/-- The readings from a leap second inside a minute on stay the same, but an ascending walk comes to its end without one of them. -/
theorem Walk.persistent_row_skipped :
    let walk := run (fun _ => Sample.readings.visit ⟨false, .asc⟩ 1 none Sample.fromLeapSecond) 2 0 none
    Regular (fun r => ∃ j < 2, r ∈ Sample.fromLeapSecond ∧ Predicate.admits none r = true) ⟨"time"⟩ ⟨"id"⟩ ∧
    ((Sample.fromLeapSecond.filter (Predicate.admits none)).Pairwise fun r s =>
      Row.field r (Column.mk "id") ≠ Row.field s (Column.mk "id")) ∧
    (∃ p, walk.pages.getLast? = some p ∧ p.pagination.nextCursor = none) ∧
    ∃ r ∈ Sample.fromLeapSecond, Predicate.admits none r = true ∧ r ∉ walk.rows := by
  intro walk
  have hwalk := Sample.run_fromLeapSecond 0
  refine ⟨Sample.regular_fromLeapSecond ?_, by decide, ⟨_, congrArg (·.pages.getLast?) hwalk, rfl⟩,
    Sample.bareReading 1 (Sample.dayMoment 86165 100000000) "2", List.mem_cons_of_mem _ List.mem_cons_self, rfl, ?_⟩
  · rintro r ⟨-, -, hr, -⟩
    exact hr
  · have hrows : walk.rows.map Record.label = [0, 2] := congrArg (·.rows.map Record.label) hwalk
    intro hmem
    have hlabel : 1 ∈ walk.rows.map Record.label := List.mem_map_of_mem hmem
    rw [hrows] at hlabel
    exact absurd hlabel (by decide)

end Keyset
