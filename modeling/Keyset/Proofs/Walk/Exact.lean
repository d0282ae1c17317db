import Keyset.Proofs.Walk.LeapSecond

/-!
# A walk through rows that stay the same

As long as the rows do not change a walk serves each of them once, in order, in pages that are full but for the last
(`Walk.static_walk_exact`). The rows fall into those that were served and those that are ahead, with the position between them
(`Definition.ahead_eq`), and a visit moves the position by one page.
-/

namespace Keyset

open Std

variable [Row ρ]

namespace Walk

/-- How many pages rows fill: one at least, and all but the last are full. -/
def pageCount (limit length : Nat) : Nat :=
  max 1 ((length + limit - 1) / limit)

/-- With a full page served one page less is left. -/
theorem pageCount_sub {limit length : Nat} (hlimit : 1 ≤ limit) (h : limit < length) :
    pageCount limit length = pageCount limit (length - limit) + 1 := by
  have hone : 1 ≤ (length - limit + limit - 1) / limit := (Nat.le_div_iff_mul_le hlimit).2 (by omega)
  have hsplit : (length + limit - 1) / limit = (length - limit + limit - 1) / limit + 1 := by
    rw [show length + limit - 1 = length - limit + limit - 1 + limit by omega, Nat.add_div_right _ hlimit]
  rw [pageCount, pageCount, hsplit]
  omega

theorem pageCount_of_le {limit length : Nat} (hlimit : 1 ≤ limit) (h : length ≤ limit) : pageCount limit length = 1 := by
  have hle : (length + limit - 1) / limit ≤ 1 := Nat.lt_succ_iff.1 ((Nat.div_lt_iff_lt_mul hlimit).2 (by omega))
  rw [pageCount]
  omega

/-- A walk that served rows in pages of a limit and came to its end. -/
structure Serves (walk : Walk ρ ε) (limit : Nat) (rows : List ρ) : Prop where
  /-- No visit failed. -/
  error_eq_none : walk.error = none
  /-- No cursor is left. -/
  cursor_eq_none : walk.cursor = none
  /-- There are as many pages as the rows fill, and one when there are no rows. -/
  length_pages : walk.pages.length = pageCount limit rows.length
  /-- The pages put end to end are the rows. -/
  rows_eq : walk.rows = rows
  /-- Every page but the last is full, says that another follows, and has its cursor. -/
  full : ∀ p ∈ walk.pages.dropLast,
    p.data.length = limit ∧ p.pagination.hasNextPage = true ∧ p.pagination.nextCursor.isSome = true
  /-- The last page says that none follows, and has no cursor. -/
  last : ∀ p ∈ walk.pages.getLast?, p.pagination.hasNextPage = false ∧ p.pagination.nextCursor = none

namespace Serves

omit [Row ρ] in
/-- A walk that serves rows has a page, also when there are no rows. -/
theorem pages_ne_nil {walk : Walk ρ ε} {limit : Nat} {rows : List ρ} (h : walk.Serves limit rows) : walk.pages ≠ [] := by
  refine List.ne_nil_of_length_pos ?_
  rw [h.length_pages]
  exact Nat.le_max_left _ _

omit [Row ρ] in
/-- One page serves rows that fit into it. -/
theorem single {limit : Nat} {rows : List ρ} (hlimit : 1 ≤ limit) (h : rows.length ≤ limit) :
    Serves (⟨[⟨rows, ⟨false, none⟩⟩], none, none⟩ : Walk ρ ε) limit rows where
  error_eq_none := rfl
  cursor_eq_none := rfl
  length_pages := (pageCount_of_le hlimit h).symm
  rows_eq := List.append_nil _
  full p hp := by
    cases hp
  last p hp := by
    cases hp
    exact ⟨rfl, rfl⟩

omit [Row ρ] in
/-- A full page in front of a walk that serves the rows behind it. -/
theorem cons {limit : Nat} {rows : List ρ} {walk : Walk ρ ε} {cursor : String} (hlimit : 1 ≤ limit) (h : limit < rows.length)
    (hrest : Serves walk limit (rows.drop limit)) :
    Serves (⟨⟨rows.take limit, ⟨true, some cursor⟩⟩ :: walk.pages, walk.error, walk.cursor⟩ : Walk ρ ε) limit rows where
  error_eq_none := hrest.error_eq_none
  cursor_eq_none := hrest.cursor_eq_none
  length_pages := by
    rw [List.length_cons, hrest.length_pages, List.length_drop, pageCount_sub hlimit h]
  rows_eq := by
    have hrows : walk.pages.flatMap Page.data = rows.drop limit := hrest.rows_eq
    rw [Walk.rows, List.flatMap_cons, hrows, List.take_append_drop]
  full p hp := by
    rw [List.dropLast_cons_of_ne_nil hrest.pages_ne_nil] at hp
    rcases List.mem_cons.1 hp with rfl | hp
    · exact ⟨List.length_take_of_le (Nat.le_of_lt h), rfl, rfl⟩
    · exact hrest.full p hp
  last p hp := by
    rw [List.getLast?_cons_of_ne_nil hrest.pages_ne_nil] at hp
    exact hrest.last p hp

end Serves

end Walk

namespace Definition

/-- When the rows of a walk fall into those that were served and a rest, the rest is ahead of the last that was served. -/
theorem ahead_eq {d : Definition κ} {sort : SortBy κ} {filter : Option Predicate} {rows served rest : List ρ}
    (hdistinct : (rows.filter (Predicate.admits filter)).Pairwise fun r s => Row.field r d.identity ≠ Row.field s d.identity)
    (hsplit : d.ahead sort filter none rows = served ++ rest) : d.ahead sort filter served.getLast? rows = rest := by
  have hstrict := pairwise_ahead sort hdistinct none
  rw [hsplit] at hstrict
  obtain ⟨hserved, hrest, hbefore⟩ := List.pairwise_append.1 hstrict
  refine RowOrder.eq_of_pairwise_lt (pairwise_ahead sort hdistinct served.getLast?) hrest ?_
  intro r
  have hmem : r ∈ served ++ rest ↔ r ∈ rows ∧ Predicate.admits filter r = true := by
    rw [← hsplit, mem_ahead]
    constructor
    · rintro ⟨hr, hadmits, -⟩
      exact ⟨hr, hadmits⟩
    · rintro ⟨hr, hadmits⟩
      refine ⟨hr, hadmits, ?_⟩
      rintro a ⟨⟩
  rw [mem_ahead, ← and_assoc, ← hmem]
  constructor
  · rintro ⟨hr, hbehind⟩
    rcases List.mem_append.1 hr with hr | hr
    · obtain ⟨last, hlast⟩ : ∃ last, served.getLast? = some last :=
        ⟨_, List.getLast?_eq_some_getLast (List.ne_nil_of_mem hr)⟩
      obtain ⟨front, rfl⟩ := List.getLast?_eq_some_iff.1 hlast
      have hlt := hbehind last hlast
      rcases List.mem_append.1 hr with hfront | hlast'
      · exact absurd hlt (OrientedCmp.not_lt_of_lt ((List.pairwise_append.1 hserved).2.2 r hfront last (List.mem_singleton.2 rfl)))
      · rw [List.mem_singleton.1 hlast'] at hlt
        exact absurd hlt (OrientedCmp.not_lt_of_lt hlt)
    · exact hr
  · intro hr
    refine ⟨List.mem_append_right _ hr, ?_⟩
    intro a ha
    exact hbefore a (List.mem_of_getLast? ha) r hr

end Definition

namespace Walk

variable [DecidableEq κ] {d : Definition κ} {sort : SortBy κ} {held : ρ → Prop}

/-- A walk that goes on behind the rows that were served serves the rest. -/
theorem serves_of_run (h : Regular held (d.table.column sort.key) d.identity)
    (hcivil : Civil held (d.table.column sort.key) d.identity) (hexposed : sort.key ∈ d.table.exposed)
    {limit : UInt32} (hlimit : 1 ≤ limit.toNat ∧ limit.toNat < 4294967295) {filter : Option Predicate} {rows : List ρ}
    (hrows : ∀ r ∈ rows, Predicate.admits filter r = true → held r)
    (hdistinct : (rows.filter (Predicate.admits filter)).Pairwise fun r s => Row.field r d.identity ≠ Row.field s d.identity)
    (visits number : Nat) {served rest : List ρ} (hsplit : d.ahead sort filter none rows = served ++ rest)
    (hvisits : pageCount limit.toNat rest.length ≤ visits) :
    (run (fun _ => d.visit sort limit filter rows) visits number (d.cursorAt sort served.getLast?)).Serves limit.toNat rest := by
  induction visits generalizing number served rest with
  | zero =>
    have hone : 1 ≤ pageCount limit.toNat rest.length := Nat.le_max_left _ _
    omega
  | succ visits ih =>
    have hposition : ∀ a ∈ served.getLast?, held a := by
      intro a ha
      have hmem : a ∈ d.ahead sort filter none rows := by
        rw [hsplit]
        exact List.mem_append_left _ (List.mem_of_getLast? ha)
      obtain ⟨hr, hadmits, -⟩ := Definition.mem_ahead.1 hmem
      exact hrows a hr hadmits
    have hvisit := h.visit_cursorAt hcivil hexposed hposition hrows limit
    have hcases := h.first_ahead_cases served.getLast? hrows hlimit
    rw [Definition.ahead_eq hdistinct hsplit] at hvisit hcases
    rcases hcases with ⟨hle, hpage⟩ | ⟨hlt, last, boundary, hlast, -, hcursor, hpage⟩
    · rw [hpage] at hvisit
      rw [run_of_last visits hvisit rfl]
      exact Serves.single hlimit.1 hle
    · rw [hpage, hcursor] at hvisit
      rw [run_of_next visits hvisit rfl]
      have hmoved : d.cursorAt sort (served ++ rest.take limit.toNat).getLast? = some boundary.token := by
        rw [List.getLast?_append, hlast, ← hcursor]
        rfl
      have hsplit' : d.ahead sort filter none rows = served ++ rest.take limit.toNat ++ rest.drop limit.toNat := by
        rw [hsplit, List.append_assoc, List.take_append_drop]
      have hleft : pageCount limit.toNat (rest.drop limit.toNat).length ≤ visits := by
        rw [pageCount_sub hlimit.1 hlt] at hvisits
        rw [List.length_drop]
        omega
      have hrest := ih (number + 1) hsplit' hleft
      rw [hmoved] at hrest
      exact Serves.cons hlimit.1 hlt hrest

/-- As long as the rows stay the same, a walk with any limit serves the rows that the caller admits, each once and in the order of
the query, in as many pages as they fill; it needs no more visits than that. The rows are regular and hold no leap seconds inside a
minute. -/
theorem static_walk_exact (d : Definition κ) (sort : SortBy κ) (hexposed : sort.key ∈ d.table.exposed) (limit : UInt32)
    (hlimit : 1 ≤ limit.toNat ∧ limit.toNat < 4294967295) (filter : Option Predicate) (rows : List ρ)
    (hregular : Regular (fun r => r ∈ rows ∧ Predicate.admits filter r = true) (d.table.column sort.key) d.identity)
    (hcivil : Civil (fun r => r ∈ rows ∧ Predicate.admits filter r = true) (d.table.column sort.key) d.identity)
    (hdistinct : (rows.filter (Predicate.admits filter)).Pairwise fun r s => Row.field r d.identity ≠ Row.field s d.identity)
    (visits : Nat) (hvisits : pageCount limit.toNat (rows.filter (Predicate.admits filter)).length ≤ visits) :
    ∃ q, Query.ofListing d (.byCursor sort limit none) = .ok q ∧
      (run (fun _ => d.visit sort limit filter rows) visits 0 none).Serves limit.toNat
        (q.order.sort (rows.filter (Predicate.admits filter))) := by
  refine ⟨_, Definition.ofListing_byCursor hexposed limit none, ?_⟩
  have hstart : d.ahead sort filter none rows = [] ++ (d.walkOrder sort).sort (rows.filter (Predicate.admits filter)) :=
    d.behind_none sort filter rows
  have hcount : ((d.walkOrder sort).sort (rows.filter (Predicate.admits filter))).length =
      (rows.filter (Predicate.admits filter)).length := ((d.walkOrder sort).sort_perm _).length_eq
  exact serves_of_run hregular hcivil hexposed hlimit (fun r hr hadmits => ⟨hr, hadmits⟩) hdistinct visits 0 hstart
    (hcount ▸ hvisits)

end Walk

/-- Four people, two of them with the same name. -/
def Sample.team : List Record :=
  [person 0 "cid" "3", person 1 "ann" "2", person 2 "eve" "4", person 3 "ann" "1"]

/-- The people of the team but for the last by name, in two pages. -/
theorem Walk.static_walk_exact_team :
    ∃ q, Query.ofListing Sample.people (.byCursor ⟨(), .asc⟩ 2 none) = .ok q ∧
      (run (fun _ => Sample.people.visit ⟨(), .asc⟩ 2 (some (.compare ⟨"name"⟩ .lt (.text "eve"))) Sample.team) 2 0 none).Serves 2
        (q.order.sort (Sample.team.filter (Predicate.admits (some (.compare ⟨"name"⟩ .lt (.text "eve")))))) := by
  have hteam : ∀ r, r ∈ Sample.team ∧ Predicate.admits (some (.compare ⟨"name"⟩ .lt (.text "eve"))) r = true → Sample.IsBrief r := by
    rintro r ⟨hteam, -⟩
    simp only [Sample.team, List.mem_cons, List.not_mem_nil, or_false] at hteam
    rcases hteam with rfl | rfl | rfl | rfl
    · exact ⟨0, "cid", "3", rfl, by decide⟩
    · exact ⟨1, "ann", "2", rfl, by decide⟩
    · exact ⟨2, "eve", "4", rfl, by decide⟩
    · exact ⟨3, "ann", "1", rfl, by decide⟩
  exact static_walk_exact Sample.people ⟨(), .asc⟩ (List.mem_singleton.2 rfl) 2 (by decide) _ Sample.team
    (Sample.regular_people hteam) (Sample.civil_people hteam) (by decide) 2 (by decide)

/-- The readings from a leap second inside a minute on are regular and have different identities, but an ascending walk does not serve
them all. -/
theorem Walk.static_walk_skips :
    Regular (fun r => r ∈ Sample.fromLeapSecond ∧ Predicate.admits none r = true) ⟨"time"⟩ ⟨"id"⟩ ∧
    ((Sample.fromLeapSecond.filter (Predicate.admits none)).Pairwise fun r s =>
      Row.field r (Column.mk "id") ≠ Row.field s (Column.mk "id")) ∧
    ¬ ∃ q, Query.ofListing Sample.readings (.byCursor ⟨false, .asc⟩ 1 none) = .ok q ∧
      (run (fun _ => Sample.readings.visit ⟨false, .asc⟩ 1 none Sample.fromLeapSecond) 3 0 none).Serves 1
        (q.order.sort (Sample.fromLeapSecond.filter (Predicate.admits none))) := by
  refine ⟨Sample.regular_fromLeapSecond fun r hr => hr.1, by decide, ?_⟩
  rintro ⟨q, -, hserves⟩
  have hlength := congrArg List.length hserves.rows_eq
  rw [(q.order.sort_perm _).length_eq, Sample.run_fromLeapSecond 1] at hlength
  cases hlength

end Keyset
