import Keyset.Proofs.Boundary.OneZero
import Keyset.Proofs.Walk.LeapSecond

/-!
# Walks end

A walk through rows that stay the same ends, whatever the rows hold (`Walk.static_walk_ends`). No counter goes down in a walk; what does
is the number of rows behind the row that the client stands at, in the order of the walk with the two zeros taken for one
(`Definition.remaining`).
-/

namespace Keyset

open Std

variable [Row ρ]

namespace Definition

/-! ## Positions -/

/-- A client stands at a row when its cursor is the token of the row, and before all rows as long as it has none. -/
def StandsAt (d : Definition κ) (sort : SortBy κ) (cursor : Option String) : Option ρ → Prop
  | none => cursor = none
  | some a => ∃ boundary, Boundary.ofRow? (d.table.column sort.key) d.identity a = some boundary ∧ cursor = some boundary.token

/-- The rows that the caller admits behind a position, with the zeros taken for one. -/
def remaining (d : Definition κ) (sort : SortBy κ) (filter : Option Predicate) (rows : List ρ) (position : Option ρ) : List ρ :=
  (rows.filter (Predicate.admits filter)).filter fun r =>
    position.all fun a => (d.walkOrder sort).compare (OneZero.mk a) (OneZero.mk r) = .lt

variable {d : Definition κ} {sort : SortBy κ} {filter : Option Predicate} {rows : List ρ} {position : Option ρ}

theorem remaining_none : d.remaining sort filter rows none = rows.filter (Predicate.admits filter) := by
  rw [remaining, List.filter_eq_self]
  intro r _
  rfl

/-- The rows that remain are those that the caller admits and that stand behind the position. -/
theorem mem_remaining {r : ρ} : r ∈ d.remaining sort filter rows position ↔
    r ∈ rows ∧ Predicate.admits filter r = true ∧
      ∀ a ∈ position, (d.walkOrder sort).compare (OneZero.mk a) (OneZero.mk r) = .lt := by
  rw [remaining, List.mem_filter, List.mem_filter, and_assoc]
  simp only [Option.all_eq_true, decide_eq_true_eq, Option.mem_def]

/-- At a row that remained fewer rows remain: what is behind it was there before, and itself it is not behind. -/
theorem length_remaining_lt {a : ρ} (ha : a ∈ d.remaining sort filter rows position) :
    (d.remaining sort filter rows (some a)).length < (d.remaining sort filter rows position).length := by
  have hbehind := (mem_remaining.1 ha).2.2
  have hfewer : d.remaining sort filter rows (some a) =
      (d.remaining sort filter rows position).filter fun r =>
        (d.walkOrder sort).compare (OneZero.mk a) (OneZero.mk r) = .lt := by
    rw [remaining, remaining]
    generalize rows.filter (Predicate.admits filter) = admitted
    rw [List.filter_filter]
    refine List.filter_congr ?_
    intro r _
    rw [Option.all_some, Bool.eq_iff_iff, Bool.and_eq_true, decide_eq_true_iff, Option.all_eq_true]
    constructor
    · intro hlt
      refine ⟨hlt, ?_⟩
      intro b hb
      exact decide_eq_true (TransCmp.lt_trans (hbehind b hb) hlt)
    · intro hlt
      exact hlt.1
  rw [hfewer, List.length_filter_lt_length_iff_exists]
  refine ⟨a, ha, ?_⟩
  intro hlt
  have hself := of_decide_eq_true hlt
  exact OrientedCmp.not_lt_of_lt hself hself

/-! ## One visit -/

variable [DecidableEq κ]

/-- A visit is refused for a token that is too long, or gives a page without a cursor, or one whose cursor is that of a row behind
the position. -/
theorem visit_cases (hexposed : sort.key ∈ d.table.exposed)
    (hwhole : sort.direction = .asc → ∀ r ∈ rows, Predicate.admits filter r = true → ∀ v,
      Row.field r (d.table.column sort.key) = some v ∨ Row.field r d.identity = some v → v.IsWhole)
    (hcivil : sort.direction = .desc →
      Civil (fun r => r ∈ rows ∧ Predicate.admits filter r = true) (d.table.column sort.key) d.identity)
    (limit : UInt32) {cursor : Option String} (hstands : d.StandsAt sort cursor position)
    (hposition : ∀ a ∈ position, a ∈ rows ∧ Predicate.admits filter a = true) :
    (∃ length, Boundary.maxTokenLength < length ∧
      d.visit sort limit filter rows cursor = .error (.token (.tooLong length Boundary.maxTokenLength))) ∨
    ∃ page, d.visit sort limit filter rows cursor = .ok page ∧ (page.pagination.nextCursor = none ∨
      ∃ next a, page.pagination.nextCursor = some next ∧ d.StandsAt sort (some next) (some a) ∧
        a ∈ d.remaining sort filter rows position) := by
  -- A visit that reads its cursor as a condition gives a first page of rows behind the position.
  have hpage : ∀ seek, Query.seekOf (d.table.column sort.key) d.identity sort.direction cursor = .ok seek →
      (∀ r ∈ rows, Predicate.admits seek r = true → ∀ a ∈ position,
        (d.walkOrder sort).compare (OneZero.mk a) (OneZero.mk r) = .lt) →
      ∃ page, d.visit sort limit filter rows cursor = .ok page ∧ (page.pagination.nextCursor = none ∨
        ∃ next a, page.pagination.nextCursor = some next ∧ d.StandsAt sort (some next) (some a) ∧
          a ∈ d.remaining sort filter rows position) := by
    intro seek hseek hbehind
    refine ⟨_, by rw [visit_eq hexposed, hseek]; rfl, ?_⟩
    cases hnext : (Page.first (d.table.column sort.key) d.identity limit (d.behind sort filter seek rows)).pagination.nextCursor with
    | none => exact .inl rfl
    | some next =>
      obtain ⟨last, boundary, hlast, hb, rfl⟩ := Page.exists_of_first_nextCursor hnext
      obtain ⟨hmem, hadmits, hseeks⟩ := mem_behind.1 (Page.mem_of_mem_first (List.mem_of_getLast? hlast))
      exact .inr ⟨_, last, rfl, ⟨boundary, hb, rfl⟩, mem_remaining.2 ⟨hmem, hadmits, hbehind last hmem hseeks⟩⟩
  cases position with
  | none =>
    rw [StandsAt] at hstands
    refine .inr (hpage none (by rw [hstands]; rfl) ?_)
    rintro r _ _ a ⟨⟩
  | some a =>
    obtain ⟨boundary, hb, rfl⟩ := hstands
    obtain ⟨ha, hadmits⟩ := hposition a rfl
    by_cases hfits : boundary.token.utf8ByteSize ≤ Boundary.maxTokenLength
    · have htoken : Boundary.ofToken boundary.token = .ok boundary.carried := by
        rw [Boundary.ofToken_token, if_pos hfits]
      refine .inr (hpage _ (Query.seekOf_some htoken) ?_)
      intro r _ hholds a' ha'
      cases ha'
      obtain ⟨hvalue, hid⟩ := Boundary.ofRow?_eq_some hb
      refine Boundary.oneZero_lt_of_seek hb ⟨⟨?_, ?_⟩, ⟨?_, ?_⟩⟩ hholds
      · exact fun hasc => hwhole hasc a ha hadmits _ (.inl hvalue)
      · exact fun hdesc => (hcivil hdesc a boundary ⟨ha, hadmits⟩ hb).1
      · exact fun hasc => hwhole hasc a ha hadmits _ (.inr hid)
      · exact fun hdesc => (hcivil hdesc a boundary ⟨ha, hadmits⟩ hb).2
    · refine .inl ⟨boundary.token.utf8ByteSize, Nat.lt_of_not_le hfits, ?_⟩
      rw [visit_eq hexposed, Query.seekOf, Boundary.ofToken_token, if_neg hfits]
      rfl

end Definition

namespace Walk

/-! ## All visits -/

/-- A walk that came to its end: no visit failed, and the last page has no cursor. -/
structure Finished (walk : Walk ρ ε) : Prop where
  error_eq_none : walk.error = none
  last : ∃ p, walk.pages.getLast? = some p ∧ p.pagination.nextCursor = none

omit [Row ρ] in
/-- A page in front of a finished walk. -/
theorem Finished.cons {walk : Walk ρ ε} (h : walk.Finished) (page : Page ρ CursorInfo) (cursor : Option String) :
    Finished (⟨page :: walk.pages, walk.error, cursor⟩ : Walk ρ ε) where
  error_eq_none := h.error_eq_none
  last := by
    obtain ⟨p, hp, hend⟩ := h.last
    refine ⟨p, ?_, hend⟩
    rw [List.getLast?_cons, hp, Option.getD_some]

/-- A walk that ended within a number of visits: it is finished, or a visit was refused for the length of its token. -/
def EndsWithin (walk : Walk ρ QueryError) (visits : Nat) : Prop :=
  (walk.Finished ∧ walk.pages.length ≤ visits) ∨
    ∃ length, Boundary.maxTokenLength < length ∧ walk.error = some (.token (.tooLong length Boundary.maxTokenLength)) ∧
      walk.pages.length + 1 ≤ visits

variable [DecidableEq κ] {d : Definition κ} {sort : SortBy κ} {filter : Option Predicate} {rows : List ρ}

/-- A walk from a position ends within one visit more than rows remain. -/
theorem endsWithin_run (hexposed : sort.key ∈ d.table.exposed)
    (hwhole : sort.direction = .asc → ∀ r ∈ rows, Predicate.admits filter r = true → ∀ v,
      Row.field r (d.table.column sort.key) = some v ∨ Row.field r d.identity = some v → v.IsWhole)
    (hcivil : sort.direction = .desc →
      Civil (fun r => r ∈ rows ∧ Predicate.admits filter r = true) (d.table.column sort.key) d.identity)
    (limit : UInt32) (visits number : Nat) {cursor : Option String} {position : Option ρ}
    (hstands : d.StandsAt sort cursor position) (hposition : ∀ a ∈ position, a ∈ rows ∧ Predicate.admits filter a = true)
    (hvisits : (d.remaining sort filter rows position).length < visits) :
    (run (fun _ => d.visit sort limit filter rows) visits number cursor).EndsWithin
      ((d.remaining sort filter rows position).length + 1) := by
  induction visits generalizing number cursor position with
  | zero => exact absurd hvisits (Nat.not_lt_zero _)
  | succ visits ih =>
    rcases Definition.visit_cases hexposed hwhole hcivil limit hstands hposition with
      ⟨length, hlong, hvisit⟩ | ⟨page, hvisit, hnext | ⟨next, a, hnext, hstands', ha⟩⟩
    · rw [run_of_error visits hvisit]
      exact .inr ⟨length, hlong, rfl, Nat.le_add_left _ _⟩
    · rw [run_of_last visits hvisit hnext]
      exact .inl ⟨⟨rfl, page, rfl, hnext⟩, Nat.le_add_left _ _⟩
    · rw [run_of_next visits hvisit hnext]
      have hfewer := Definition.length_remaining_lt ha
      have hposition' : ∀ a' ∈ some a, a' ∈ rows ∧ Predicate.admits filter a' = true := by
        intro a' ha'
        cases ha'
        obtain ⟨hmem, hadmits, -⟩ := Definition.mem_remaining.1 ha
        exact ⟨hmem, hadmits⟩
      rcases ih (number + 1) hstands' hposition' (by omega) with ⟨hfinished, hle⟩ | ⟨length, hlong, herror, hle⟩
      · refine .inl ⟨hfinished.cons page _, ?_⟩
        rw [List.length_cons]
        omega
      · refine .inr ⟨length, hlong, herror, ?_⟩
        rw [List.length_cons]
        omega

/-- Whatever rows hold that stay the same, a walk ends: after at most one visit more than there are rows that the caller admits, it
has a page without a cursor, or a token was too long. An ascending walk asks for whole values, a descending one for no leap seconds
inside a minute. -/
theorem static_walk_ends (d : Definition κ) (sort : SortBy κ) (hexposed : sort.key ∈ d.table.exposed) (limit : UInt32)
    (filter : Option Predicate) (rows : List ρ)
    (hwhole : sort.direction = .asc → ∀ r ∈ rows, Predicate.admits filter r = true → ∀ v,
      Row.field r (d.table.column sort.key) = some v ∨ Row.field r d.identity = some v → v.IsWhole)
    (hcivil : sort.direction = .desc →
      Civil (fun r => r ∈ rows ∧ Predicate.admits filter r = true) (d.table.column sort.key) d.identity)
    (visits : Nat) (hvisits : (rows.filter (Predicate.admits filter)).length + 1 ≤ visits) :
    (run (fun _ => d.visit sort limit filter rows) visits 0 none).EndsWithin
      ((rows.filter (Predicate.admits filter)).length + 1) := by
  have hall : d.remaining sort filter rows none = rows.filter (Predicate.admits filter) := Definition.remaining_none
  rw [← hall] at hvisits ⊢
  refine endsWithin_run hexposed hwhole hcivil limit visits 0 rfl ?_ hvisits
  rintro a ⟨⟩

end Walk

/-- People with both zeros and a NaN for names, one of them without a name, and all with one identity. -/
def Sample.nameless : List Record :=
  [.mk 0 [(⟨"name"⟩, .number .zero), (⟨"id"⟩, .text "1")], .mk 1 [(⟨"name"⟩, .number .negativeZero), (⟨"id"⟩, .text "1")],
    .mk 2 [(⟨"id"⟩, .text "1")], .mk 3 [(⟨"name"⟩, .number .nan), (⟨"id"⟩, .text "1")]]

/-- The walk through these people, one on a page, ends within five visits. -/
theorem Walk.static_walk_ends_nameless :
    (run (fun _ => Sample.people.visit ⟨(), .asc⟩ 1 none Sample.nameless) 5 0 none).EndsWithin 5 := by
  refine static_walk_ends Sample.people ⟨(), .asc⟩ (List.mem_singleton.2 rfl) 1 none Sample.nameless ?_ nofun 5 (by decide)
  have hfields : ∀ r ∈ Sample.nameless, ∀ column ∈ [Column.mk "name", Column.mk "id"], ∀ v ∈ Row.field r column, v.kind ≠ .date := by
    decide
  intro _ r hr _ v hv t ht
  have hkind : v.kind ≠ .date := by
    rcases hv with hv | hv
    · exact hfields r hr _ List.mem_cons_self v hv
    · exact hfields r hr _ (List.mem_cons_of_mem _ List.mem_cons_self) v hv
  rw [ht] at hkind
  exact absurd rfl hkind

/-- A descending walk through three readings that comes to a leap second inside a minute has not ended after four visits, nor does it
after more. -/
theorem Walk.static_walk_repeats :
    Sample.backToLeapSecond.length = 3 ∧ ∀ visits, 4 ≤ visits →
      ¬ (run (fun _ => Sample.readings.visit ⟨false, .desc⟩ 1 none Sample.backToLeapSecond) visits 0 none).EndsWithin 4 := by
  refine ⟨rfl, ?_⟩
  intro visits hvisits
  obtain ⟨visits, rfl⟩ := Nat.exists_eq_add_of_le' (Nat.le_trans (by decide : 2 ≤ 4) hvisits)
  rw [Sample.run_backToLeapSecond visits]
  rintro (⟨⟨-, p, hp, hend⟩, -⟩ | ⟨length, -, herror, -⟩)
  · rw [List.replicate_succ', List.getLast?_cons, List.getLast?_concat, Option.getD_some] at hp
    cases hp
    cases hend
  · cases herror

end Keyset
