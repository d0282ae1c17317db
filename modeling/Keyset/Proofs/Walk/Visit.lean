import Keyset.Proofs.Boundary.Seek
import Keyset.Proofs.Query.Fetch
import Keyset.Proofs.Query.Sorts
import Keyset.Store

/-!
# Visits

A visit gives the first page of the rows behind its cursor (`Definition.visit_eq`), and a walk makes one visit after the other
(`Walk.run_of_error`, `Walk.run_of_last`, `Walk.run_of_next`).
-/

namespace Keyset

open Std

variable [Row ρ]

/-! ## First pages -/

theorem Page.mem_of_mem_first {column identity : Column} {limit : UInt32} {rows : List ρ} {r : ρ}
    (h : r ∈ (Page.first column identity limit rows).data) : r ∈ rows :=
  List.mem_of_mem_take h

/-- The cursor of a first page is the token of its last row. -/
theorem Page.exists_of_first_nextCursor {column identity : Column} {limit : UInt32} {rows : List ρ} {token : String}
    (h : (Page.first column identity limit rows).pagination.nextCursor = some token) :
    ∃ last boundary, (Page.first column identity limit rows).data.getLast? = some last ∧
      Boundary.ofRow? column identity last = some boundary ∧ token = boundary.token := by
  simp only [Page.first] at h ⊢
  split at h
  · obtain ⟨boundary, hbind, rfl⟩ := Option.map_eq_some_iff.1 h
    obtain ⟨last, hlast, hrow⟩ := Option.bind_eq_some_iff.1 hbind
    exact ⟨last, boundary, hlast, hrow, rfl⟩
  · cases h

namespace Definition

/-! ## The rows behind a cursor -/

/-- The order in which a walk by one sort goes through the rows. -/
def walkOrder (d : Definition κ) (sort : SortBy κ) : RowOrder :=
  Query.cursorOrder (d.table.column sort.key) d.identity sort.direction

/-- The rows that meet a condition besides that of the caller, in the order of the walk. -/
def behind (d : Definition κ) (sort : SortBy κ) (filter seek : Option Predicate) (rows : List ρ) : List ρ :=
  (d.walkOrder sort).sort ((rows.filter (Predicate.admits filter)).filter (Predicate.admits seek))

theorem mem_behind {d : Definition κ} {sort : SortBy κ} {filter seek : Option Predicate} {rows : List ρ} {r : ρ} :
    r ∈ d.behind sort filter seek rows ↔
      r ∈ rows ∧ Predicate.admits filter r = true ∧ Predicate.admits seek r = true := by
  rw [behind, ((d.walkOrder sort).sort_perm _).mem_iff, List.mem_filter, List.mem_filter, and_assoc]

/-- Without a cursor all rows are ahead that the caller admits. -/
theorem behind_none (d : Definition κ) (sort : SortBy κ) (filter : Option Predicate) (rows : List ρ) :
    d.behind sort filter none rows = (d.walkOrder sort).sort (rows.filter (Predicate.admits filter)) := by
  rw [behind]
  congr 1
  rw [List.filter_eq_self]
  intro r _
  rfl

theorem behind_of_pairwise {d : Definition κ} {sort : SortBy κ} {rows : List ρ}
    (h : rows.Pairwise fun r s => ((d.walkOrder sort).compare r s).isLE = true) (filter seek : Option Predicate) :
    d.behind sort filter seek rows = (rows.filter (Predicate.admits filter)).filter (Predicate.admits seek) :=
  RowOrder.sort_of_pairwise ((h.filter _).filter _)

/-- The rows that match the query of a visit are those behind its cursor. -/
theorem matching_eq_behind (d : Definition κ) (sort : SortBy κ) (limit : UInt32) (filter seek : Option Predicate)
    (rows : List ρ) :
    Query.matching ⟨d.walkOrder sort, d.identity, .behind sort (d.table.column sort.key) seek limit⟩ filter rows =
      d.behind sort filter seek rows := by
  rw [Query.matching_eq, behind]
  rfl

/-! ## Visits -/

variable [DecidableEq κ]

/-- The query of a listing behind a cursor, when the sort is exposed. -/
theorem ofListing_byCursor {d : Definition κ} {sort : SortBy κ} (hexposed : sort.key ∈ d.table.exposed) (limit : UInt32)
    (cursor : Option String) :
    Query.ofListing d (.byCursor sort limit cursor) =
      ((Query.seekOf (d.table.column sort.key) d.identity sort.direction cursor).mapError .token).map fun seek =>
        ⟨d.walkOrder sort, d.identity, .behind sort (d.table.column sort.key) seek limit⟩ := by
  simp only [Query.ofListing, Listing.byCursor, List.headD_cons, resolve_of_exposed hexposed, Except.mapError, bind, Except.bind]
  cases Query.seekOf (d.table.column sort.key) d.identity sort.direction cursor <;> rfl

/-- A visit by an exposed sort gives the first page of the rows behind the cursor, or fails with the fault of the cursor. -/
theorem visit_eq {d : Definition κ} {sort : SortBy κ} (hexposed : sort.key ∈ d.table.exposed) (limit : UInt32)
    (filter : Option Predicate) (rows : List ρ) (cursor : Option String) :
    d.visit sort limit filter rows cursor =
      ((Query.seekOf (d.table.column sort.key) d.identity sort.direction cursor).mapError .token).map fun seek =>
        Page.first (d.table.column sort.key) d.identity limit (d.behind sort filter seek rows) := by
  rw [visit, cursorPage, ofListing_byCursor hexposed]
  cases Query.seekOf (d.table.column sort.key) d.identity sort.direction cursor with
  | error fault => rfl
  | ok seek =>
    refine congrArg Except.ok ((Query.cursorPage_fetch rfl filter rows).trans ?_)
    rw [matching_eq_behind]

/-- Only an exposed sort has queries behind a cursor. -/
theorem exposed_of_ofListing {d : Definition κ} {sort : SortBy κ} {limit : UInt32} {cursor : Option String} {q : Query κ}
    (h : Query.ofListing d (.byCursor sort limit cursor) = .ok q) : sort.key ∈ d.table.exposed := by
  by_cases hexposed : sort.key ∈ d.table.exposed
  · exact hexposed
  · simp only [Query.ofListing, Listing.byCursor, List.headD_cons, resolve_of_not_exposed hexposed, Except.mapError, bind,
      Except.bind] at h
    cases h

/-- A query behind a cursor goes in the order of the walk, and looks behind what the cursor is read as. -/
theorem exists_of_ofListing {d : Definition κ} {sort : SortBy κ} {limit : UInt32} {cursor : Option String} {q : Query κ}
    (h : Query.ofListing d (.byCursor sort limit cursor) = .ok q) :
    ∃ seek, Query.seekOf (d.table.column sort.key) d.identity sort.direction cursor = .ok seek ∧
      q = ⟨d.walkOrder sort, d.identity, .behind sort (d.table.column sort.key) seek limit⟩ := by
  rw [ofListing_byCursor (exposed_of_ofListing h)] at h
  cases hseek : Query.seekOf (d.table.column sort.key) d.identity sort.direction cursor with
  | error fault =>
    rw [hseek] at h
    cases h
  | ok seek =>
    rw [hseek] at h
    cases h
    exact ⟨seek, rfl, rfl⟩

/-- The order of every query behind a cursor is that of the walk. -/
theorem order_eq_walkOrder {d : Definition κ} {sort : SortBy κ} {limit : UInt32} {cursor : Option String} {q : Query κ}
    (h : Query.ofListing d (.byCursor sort limit cursor) = .ok q) : q.order = d.walkOrder sort := by
  obtain ⟨seek, -, rfl⟩ := exists_of_ofListing h
  rfl

/-- A visit that does not fail gives the first page of the rows behind what its cursor is read as. -/
theorem exists_of_visit {d : Definition κ} {sort : SortBy κ} {limit : UInt32} {filter : Option Predicate} {rows : List ρ}
    {cursor : Option String} {page : Page ρ CursorInfo} (h : d.visit sort limit filter rows cursor = .ok page) :
    ∃ seek, Query.seekOf (d.table.column sort.key) d.identity sort.direction cursor = .ok seek ∧
      page = Page.first (d.table.column sort.key) d.identity limit (d.behind sort filter seek rows) := by
  obtain ⟨q, hq, hpage⟩ := Except.exists_of_bind_eq_ok h
  obtain ⟨seek, hseek, rfl⟩ := exists_of_ofListing hq
  refine ⟨seek, hseek, ?_⟩
  rw [← matching_eq_behind, ← Except.ok.inj hpage]
  exact Query.cursorPage_fetch rfl filter rows

/-- A visit without a cursor gives the first page of all rows that the caller admits. -/
theorem visit_none_eq {d : Definition κ} {sort : SortBy κ} (hexposed : sort.key ∈ d.table.exposed) (limit : UInt32)
    (filter : Option Predicate) (rows : List ρ) :
    d.visit sort limit filter rows none =
      .ok (Page.first (d.table.column sort.key) d.identity limit (d.behind sort filter none rows)) := by
  rw [visit_eq hexposed]
  rfl

/-- A visit with the token of a boundary gives the first page of the rows behind what the token carries. -/
theorem visit_token_eq {d : Definition κ} {sort : SortBy κ} (hexposed : sort.key ∈ d.table.exposed) (limit : UInt32)
    (filter : Option Predicate) (rows : List ρ) {boundary : Boundary}
    (hfits : boundary.token.utf8ByteSize ≤ Boundary.maxTokenLength) :
    d.visit sort limit filter rows (some boundary.token) = .ok (Page.first (d.table.column sort.key) d.identity limit
      (d.behind sort filter (some (boundary.carried.seek (d.table.column sort.key) d.identity sort.direction)) rows)) := by
  rw [visit_eq hexposed, Query.seekOf, Boundary.ofToken_token, if_pos hfits]
  rfl

/-- A visit that does not fail gives the first page of the rows that meet the condition behind what the token carries. -/
theorem eq_first_of_visit {d : Definition κ} {sort : SortBy κ} {limit : UInt32} {filter : Option Predicate} {rows : List ρ}
    {boundary : Boundary} {page : Page ρ CursorInfo} (hpage : d.visit sort limit filter rows (some boundary.token) = .ok page) :
    page = Page.first (d.table.column sort.key) d.identity limit
      (d.behind sort filter (some (boundary.carried.seek (d.table.column sort.key) d.identity sort.direction)) rows) := by
  obtain ⟨seek, hseek, rfl⟩ := exists_of_visit hpage
  rw [Query.seekOf, Boundary.ofToken_token] at hseek
  split at hseek
  · cases hseek
    rfl
  · cases hseek

end Definition

/-! ## Steps of a walk -/

namespace Walk

variable {ε : Type} {visit : Nat → Option String → Except ε (Page ρ CursorInfo)} {number : Nat} {cursor : Option String}

omit [Row ρ] in
theorem run_of_error (visits : Nat) {error : ε} (h : visit number cursor = .error error) :
    run visit (visits + 1) number cursor = ⟨[], some error, cursor⟩ := by
  rw [run, h]

omit [Row ρ] in
theorem run_of_last (visits : Nat) {page : Page ρ CursorInfo} (h : visit number cursor = .ok page)
    (hnext : page.pagination.nextCursor = none) : run visit (visits + 1) number cursor = ⟨[page], none, none⟩ := by
  simp only [run, h, hnext]

omit [Row ρ] in
/-- With the cursor of a page the walk goes on. -/
theorem run_of_next (visits : Nat) {page : Page ρ CursorInfo} {next : String} (h : visit number cursor = .ok page)
    (hnext : page.pagination.nextCursor = some next) :
    run visit (visits + 1) number cursor =
      ⟨page :: (run visit visits (number + 1) (some next)).pages, (run visit visits (number + 1) (some next)).error,
        (run visit visits (number + 1) (some next)).cursor⟩ := by
  simp only [run, h, hnext]

omit [Row ρ] in
/-- A page that has the cursor it was asked with comes again at every visit. -/
theorem run_of_same {page : Page ρ CursorInfo} {next : String} (h : ∀ number, visit number (some next) = .ok page)
    (hnext : page.pagination.nextCursor = some next) (visits number : Nat) :
    run visit visits number (some next) = ⟨List.replicate visits page, none, some next⟩ := by
  induction visits generalizing number with
  | zero => rfl
  | succ visits ih => rw [run_of_next visits (h number) hnext, ih, List.replicate_succ]

end Walk

end Keyset
