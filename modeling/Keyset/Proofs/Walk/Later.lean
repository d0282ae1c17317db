import Keyset.Proofs.Walk.LeapSecond

/-!
# Later pages

Whatever the rows hold and however they change between visits, no page of a walk goes back: its rows stand strictly behind those
of every page before (`Walk.pages_strictly_later`). A page ends with its last row, whose token is the cursor of the next visit,
and what that visit serves stands behind this row (`Definition.lt_of_visit`).
-/

namespace Keyset

open Std

variable [DecidableEq κ] [Row ρ]

namespace Definition

/-- What keeps a walk from going back: among the rows that it meets the sort column does not hold both zeros, an ascending walk
meets whole values only, and a descending one no leap seconds inside a minute. -/
structure Monotone (d : Definition κ) (sort : SortBy κ) (held : ρ → Prop) : Prop where
  one_zero : ¬ ((d.table.column sort.key).Holds held (.number .zero) ∧
    (d.table.column sort.key).Holds held (.number .negativeZero))
  isWhole : sort.direction = .asc → ∀ v,
    (d.table.column sort.key).Holds held v ∨ d.identity.Holds held v → v.IsWhole
  isCivil : sort.direction = .desc → Civil held (d.table.column sort.key) d.identity

variable {d : Definition κ} {sort : SortBy κ} {held : ρ → Prop}

/-- The rows of a page stand behind the row that the cursor of the visit comes from. -/
theorem lt_of_visit (h : d.Monotone sort held) {limit : UInt32} {filter : Option Predicate} {rows : List ρ}
    (hrows : ∀ r ∈ rows, held r) {a : ρ} (ha : held a) {boundary : Boundary}
    (hb : Boundary.ofRow? (d.table.column sort.key) d.identity a = some boundary) {page : Page ρ CursorInfo}
    (hpage : d.visit sort limit filter rows (some boundary.token) = .ok page) {r : ρ} (hr : r ∈ page.data) :
    (d.walkOrder sort).compare a r = .lt := by
  rw [eq_first_of_visit hpage] at hr
  obtain ⟨hmem, -, hholds⟩ := mem_behind.1 (Page.mem_of_mem_first hr)
  obtain ⟨hvalue, hid⟩ := Boundary.ofRow?_eq_some hb
  have hforward : Boundary.Forward sort.direction boundary.value ∧ Boundary.Forward sort.direction boundary.id :=
    ⟨⟨fun hasc => h.isWhole hasc _ (.inl ⟨a, ha, hvalue⟩), fun hdesc => (h.isCivil hdesc a boundary ha hb).1⟩,
      ⟨fun hasc => h.isWhole hasc _ (.inr ⟨a, ha, hid⟩), fun hdesc => (h.isCivil hdesc a boundary ha hb).2⟩⟩
  refine Boundary.lt_of_seek hb hforward ?_ hholds
  · rintro v hv (⟨rfl, hw⟩ | ⟨rfl, hw⟩)
    · exact h.one_zero ⟨⟨r, hrows r hmem, hv⟩, ⟨a, ha, by rw [hvalue, hw]⟩⟩
    · exact h.one_zero ⟨⟨a, ha, by rw [hvalue, hw]⟩, ⟨r, hrows r hmem, hv⟩⟩

/-- The rows of a page are rows of the list. -/
theorem mem_of_visit {limit : UInt32} {filter : Option Predicate} {rows : List ρ} {cursor : Option String}
    {page : Page ρ CursorInfo} (hpage : d.visit sort limit filter rows cursor = .ok page) {r : ρ} (hr : r ∈ page.data) :
    r ∈ rows := by
  obtain ⟨seek, -, rfl⟩ := exists_of_visit hpage
  exact (mem_behind.1 (Page.mem_of_mem_first hr)).1

/-- The cursor behind a page is the token of its last row. -/
theorem exists_last_of_visit {limit : UInt32} {filter : Option Predicate} {rows : List ρ} {cursor : Option String}
    {page : Page ρ CursorInfo} (hpage : d.visit sort limit filter rows cursor = .ok page) {token : String}
    (hnext : page.pagination.nextCursor = some token) :
    ∃ last boundary, page.data.getLast? = some last ∧
      Boundary.ofRow? (d.table.column sort.key) d.identity last = some boundary ∧ token = boundary.token := by
  obtain ⟨seek, -, rfl⟩ := exists_of_visit hpage
  exact Page.exists_of_first_nextCursor hnext

/-- The rows of a page are in order, so none of them stands behind the last. -/
theorem isLE_last_of_visit {limit : UInt32} {filter : Option Predicate} {rows : List ρ} {cursor : Option String}
    {page : Page ρ CursorInfo} (hpage : d.visit sort limit filter rows cursor = .ok page) {last : ρ}
    (hlast : page.data.getLast? = some last) {r : ρ} (hr : r ∈ page.data) :
    ((d.walkOrder sort).compare r last).isLE = true := by
  obtain ⟨seek, -, rfl⟩ := exists_of_visit hpage
  obtain ⟨front, hfront⟩ := List.getLast?_eq_some_iff.1 hlast
  have hsorted : (front ++ [last]).Pairwise fun r s => ((d.walkOrder sort).compare r s).isLE = true :=
    hfront ▸ ((d.walkOrder sort).pairwise_sort _).sublist (List.take_sublist _ _)
  rw [hfront] at hr
  rcases List.mem_append.1 hr with hmem | hmem
  · exact (List.pairwise_append.1 hsorted).2.2 r hmem last (List.mem_singleton.2 rfl)
  · rw [List.mem_singleton.1 hmem]
    exact ReflCmp.isLE_rfl

end Definition

namespace Walk

/-- Pages each of which stands behind those before it, and behind every row whose token is the cursor that they were asked with. -/
structure Climbs (d : Definition κ) (sort : SortBy κ) (held : ρ → Prop) (cursor : Option String)
    (pages : List (Page ρ CursorInfo)) : Prop where
  pairs : pages.Pairwise fun p p' => ∀ r ∈ p.data, ∀ r' ∈ p'.data, (d.walkOrder sort).compare r r' = .lt
  behind : ∀ a boundary, held a → Boundary.ofRow? (d.table.column sort.key) d.identity a = some boundary →
    cursor = some boundary.token → ∀ p ∈ pages, ∀ r ∈ p.data, (d.walkOrder sort).compare a r = .lt

variable {d : Definition κ} {sort : SortBy κ} {held : ρ → Prop}

omit [DecidableEq κ] in
/-- Without pages there is nothing to go back to. -/
theorem Climbs.nil (cursor : Option String) : Climbs d sort held cursor [] where
  pairs := .nil
  behind := by
    intro a boundary ha hb hcursor p hp
    cases hp

/-- A page in front of the pages that its cursor leads to. -/
theorem Climbs.cons (h : d.Monotone sort held) {limit : UInt32} {filter : Option Predicate} {rows : List ρ}
    (hrows : ∀ r ∈ rows, held r) {cursor : Option String} {page : Page ρ CursorInfo}
    (hvisit : d.visit sort limit filter rows cursor = .ok page) {pages : List (Page ρ CursorInfo)}
    (hrest : Climbs d sort held page.pagination.nextCursor pages) (hend : page.pagination.nextCursor = none → pages = []) :
    Climbs d sort held cursor (page :: pages) := by
  have hpage : ∀ a boundary, held a → Boundary.ofRow? (d.table.column sort.key) d.identity a = some boundary →
      cursor = some boundary.token → ∀ r ∈ page.data, (d.walkOrder sort).compare a r = .lt := by
    rintro a boundary ha hb rfl r hr
    exact Definition.lt_of_visit h hrows ha hb hvisit hr
  cases hnext : page.pagination.nextCursor with
  | none =>
    rw [hend hnext]
    refine ⟨List.pairwise_singleton _ _, ?_⟩
    intro a boundary ha hb hcursor p hp
    rw [List.mem_singleton.1 hp]
    exact hpage a boundary ha hb hcursor
  | some next =>
    obtain ⟨last, boundary, hlast, hb, rfl⟩ := Definition.exists_last_of_visit hvisit hnext
    have hmem : last ∈ page.data := List.mem_of_getLast? hlast
    have hbehind := hrest.behind last boundary (hrows last (Definition.mem_of_visit hvisit hmem)) hb hnext
    -- The last row of the page stands between the page and what follows it.
    have hlater : ∀ r ∈ page.data, ∀ p ∈ pages, ∀ r' ∈ p.data, (d.walkOrder sort).compare r r' = .lt := by
      intro r hr p hp r' hr'
      exact TransCmp.lt_of_isLE_of_lt (Definition.isLE_last_of_visit hvisit hlast hr) (hbehind p hp r' hr')
    constructor
    · rw [List.pairwise_cons]
      refine ⟨?_, hrest.pairs⟩
      intro p hp r hr
      exact hlater r hr p hp
    · intro a boundary' ha hb' hcursor p hp r hr
      rcases List.mem_cons.1 hp with rfl | hp
      · exact hpage a boundary' ha hb' hcursor r hr
      · exact TransCmp.lt_trans (hpage a boundary' ha hb' hcursor last hmem) (hlater last hmem p hp r hr)

/-- The pages of a walk climb. -/
theorem climbs_run (h : d.Monotone sort held) (limit : Nat → UInt32) (filter : Nat → Option Predicate) {rows : Nat → List ρ}
    (visits number : Nat) (hrows : ∀ j, number ≤ j → j < number + visits → ∀ r ∈ rows j, held r) (cursor : Option String) :
    Climbs d sort held cursor (run (fun j => d.visit sort (limit j) (filter j) (rows j)) visits number cursor).pages := by
  induction visits generalizing number cursor with
  | zero => exact .nil cursor
  | succ visits ih =>
    have hnow : ∀ r ∈ rows number, held r := hrows number (Nat.le_refl _) (by omega)
    have hthen : ∀ j, number + 1 ≤ j → j < number + 1 + visits → ∀ r ∈ rows j, held r := by
      intro j hle hlt
      exact hrows j (by omega) (by omega)
    cases hvisit : d.visit sort (limit number) (filter number) (rows number) cursor with
    | error error =>
      rw [run_of_error visits hvisit]
      exact .nil cursor
    | ok page =>
      cases hnext : page.pagination.nextCursor with
      | none =>
        rw [run_of_last visits hvisit hnext]
        refine .cons h hnow hvisit (.nil _) ?_
        intro _
        rfl
      | some next =>
        rw [run_of_next visits hvisit hnext]
        have hrest : Climbs d sort held page.pagination.nextCursor
            (run (fun j => d.visit sort (limit j) (filter j) (rows j)) visits (number + 1) (some next)).pages := by
          rw [hnext]
          exact ih (number + 1) hthen (some next)
        refine .cons h hnow hvisit hrest ?_
        intro hnone
        rw [hnext] at hnone
        cases hnone

/-- For arbitrary rows that may change between visits, with a limit and a filter chosen anew for each of them, every row of a page
stands strictly behind all rows of the pages before. So no pair of sort value and identity comes on two pages. -/
theorem pages_strictly_later (d : Definition κ) (sort : SortBy κ) (visits : Nat) (rows : Nat → List ρ) (limit : Nat → UInt32)
    (filter : Nat → Option Predicate) (start : Option String) (h : d.Monotone sort fun r => ∃ j < visits, r ∈ rows j)
    {anyLimit : UInt32} {cursor : Option String} {q : Query κ}
    (hq : Query.ofListing d (.byCursor sort anyLimit cursor) = .ok q) :
    (run (fun j => d.visit sort (limit j) (filter j) (rows j)) visits 0 start).pages.Pairwise fun p p' =>
      ∀ r ∈ p.data, ∀ r' ∈ p'.data, q.order.compare r r' = .lt ∧
        ¬ (Row.field r (d.table.column sort.key) = Row.field r' (d.table.column sort.key) ∧
          Row.field r d.identity = Row.field r' d.identity) := by
  have hrows : ∀ j, 0 ≤ j → j < 0 + visits → ∀ r ∈ rows j, ∃ j < visits, r ∈ rows j := by
    intro j _ hlt r hr
    exact ⟨j, by omega, hr⟩
  have hclimbs := climbs_run h limit filter visits 0 hrows start
  rw [Definition.order_eq_walkOrder hq]
  refine hclimbs.pairs.imp ?_
  intro p p' hlater r hr r' hr'
  have hlt := hlater r hr r' hr'
  refine ⟨hlt, ?_⟩
  rintro ⟨hvalue, hid⟩
  have hequal : (d.walkOrder sort).compare r r' = .eq := by
    rw [RowOrder.compare_eq_eq_iff]
    intro field hfield
    rcases List.mem_pair.1 hfield with rfl | rfl
    · exact hvalue
    · exact hid
  rw [hequal] at hlt
  cases hlt

end Walk

/-- Two states of a store: between the visits one person goes, another is renamed, and one has no name. -/
def Sample.renamed : Nat → List Record
  | 0 => [.mk 2 [(⟨"id"⟩, .text "2")], person 0 "ann" "1", person 1 "bob" "1"]
  | _ => [person 1 "abe" "1", person 0 "ann" "1"]

/-- The pages of a descending walk, of one row each, through the two states. -/
theorem Walk.pages_strictly_later_renamed :
    Sample.people.Monotone ⟨(), .desc⟩ (fun r => ∃ j < 2, r ∈ Sample.renamed j) ∧
    (run (fun j => Sample.people.visit ⟨(), .desc⟩ 1 none (Sample.renamed j)) 2 0 none).pages.Pairwise fun p p' =>
      ∀ r ∈ p.data, ∀ r' ∈ p'.data, (Sample.people.walkOrder ⟨(), .desc⟩).compare r r' = .lt ∧
        ¬ (Row.field r (Column.mk "name") = Row.field r' (Column.mk "name") ∧
          Row.field r (Column.mk "id") = Row.field r' (Column.mk "id")) := by
  have hzero : ∀ r ∈ Sample.renamed 0 ++ Sample.renamed 1, Row.field r (Column.mk "name") ≠ some (.number .zero) := by
    decide
  have hkind : ∀ r ∈ Sample.renamed 0 ++ Sample.renamed 1, ∀ column ∈ [Column.mk "name", Column.mk "id"],
      ∀ v ∈ Row.field r column, v.kind ≠ .date := by
    decide
  have hstates : ∀ r, (∃ j < 2, r ∈ Sample.renamed j) → r ∈ Sample.renamed 0 ++ Sample.renamed 1 := by
    rintro r ⟨j, hj, hr⟩
    match j, hj with
    | 0, _ => exact List.mem_append_left _ hr
    | 1, _ => exact List.mem_append_right _ hr
  have hmonotone : Sample.people.Monotone ⟨(), .desc⟩ (fun r => ∃ j < 2, r ∈ Sample.renamed j) := by
    constructor
    · rintro ⟨⟨r, hr, hv⟩, -⟩
      exact hzero r (hstates r hr) hv
    · rintro ⟨⟩
    · intro _
      refine Boundary.civil_of_kind ?_
      rintro r hr v (hv | hv)
      · exact hkind r (hstates r hr) _ List.mem_cons_self v hv
      · exact hkind r (hstates r hr) _ (List.mem_cons_of_mem _ List.mem_cons_self) v hv
  exact ⟨hmonotone, pages_strictly_later Sample.people ⟨(), .desc⟩ 2 Sample.renamed (fun _ => 1) (fun _ => none) none hmonotone
    (Definition.ofListing_byCursor (List.mem_singleton.2 rfl) 1 none)⟩

/-- A descending walk that comes to a leap second inside a minute serves it on two pages, although its rows hold no zeros. -/
theorem Walk.page_repeated :
    ¬ ((Column.mk "time").Holds (fun r => ∃ j < 3, r ∈ Sample.backToLeapSecond) (.number .zero) ∧
      (Column.mk "time").Holds (fun r => ∃ j < 3, r ∈ Sample.backToLeapSecond) (.number .negativeZero)) ∧
    ¬ (run (fun _ => Sample.readings.visit ⟨false, .desc⟩ 1 none Sample.backToLeapSecond) 3 0 none).pages.Pairwise fun p p' =>
      ∀ r ∈ p.data, ∀ r' ∈ p'.data, (Sample.readings.walkOrder ⟨false, .desc⟩).compare r r' = .lt := by
  constructor
  · have hzero : ∀ r ∈ Sample.backToLeapSecond, Row.field r (Column.mk "time") ≠ some (.number .zero) := by decide
    rintro ⟨⟨r, ⟨-, -, hr⟩, hv⟩, -⟩
    exact hzero r hr hv
  · rw [Sample.run_backToLeapSecond 1]
    intro hlater
    have hself := (List.pairwise_cons.1 (List.pairwise_cons.1 hlater).2).1 _ List.mem_cons_self _ List.mem_cons_self _
      List.mem_cons_self
    exact OrientedCmp.not_lt_of_lt hself hself

end Keyset
