import Keyset.Proofs.Query.Fetch
import Keyset.Proofs.Query.Sorts
import Keyset.Proofs.RowOrder
import Keyset.Proofs.Sample

/-!
# What a fetch takes from the stored rows

A store may leave out the rows that the caller does not admit before the query runs or after: `Query.fetch_eq_fetch_filter`. Nor does
it matter in which order it keeps its rows, as long as no two of them have the same identity (`Query.fetch_eq_of_perm`): the identity
takes part in the order of every query (`Query.isTotal_of_ofListing`), so no two rows compare equal.
-/

namespace Keyset

namespace Query

/-! ## Conditions of the caller -/

/-- A conjunction of conditions that may be absent holds when all do that are present, and fetching with a condition is fetching from
the rows that meet it, whatever the query. -/
theorem fetch_eq_fetch_filter [Row ρ] :
    (∀ (parts : List (Option Predicate)) (row : ρ),
      Predicate.admits (Predicate.conjoin parts) row = true ↔ ∀ part, some part ∈ parts → part.holds row = true) ∧
    ∀ (q : Query κ) (filter : Predicate) (rows : List ρ),
      q.fetch (some filter) rows = q.fetch none (rows.filter fun row => filter.holds row) := by
  constructor
  · intro parts row
    rw [Predicate.admits_conjoin, List.all_eq_true]
    constructor
    · intro hall part hpart
      exact hall (some part) hpart
    · intro hall part hpart
      cases part with
      | none => rfl
      | some part => exact hall part hpart
  · intro q filter rows
    have hmatching : q.matching (some filter) rows = q.matching none (rows.filter fun row => filter.holds row) := by
      have hnone : ∀ row ∈ rows.filter fun row => filter.holds row, Predicate.admits none row = true := by
        intro row _
        rfl
      rw [matching_eq, matching_eq, List.filter_eq_self.2 hnone]
      rfl
    rw [fetch, fetch, hmatching]

end Query

/-- Books called Sonnets. -/
def Sample.sonnets : Predicate :=
  .compare ⟨"title"⟩ .eq (.text "Sonnets")

/-- A book meets a condition that is asked for as it is, among others by itself, and beside conjunctions of nothing. The first ten books
of a list that meet it are fetched. -/
theorem Query.fetch_eq_fetch_filter_sonnets :
    Predicate.admits
      (Predicate.conjoin [none, some (.conj []), some (.conj [.conj [Sample.sonnets]]), some (.disj [.disj [], Sample.sonnets])])
      (Sample.book 0 "Sonnets" "3") = true ∧
    ∃ q, ofListing (Sample.books true) ⟨.offset 1 10, [], nofun⟩ = .ok q ∧
      q.fetch (some Sample.sonnets) [Sample.book 0 "Sonnets" "1", Sample.book 1 "Hamlet" "2", Sample.book 2 "Sonnets" "3"] =
        [Sample.book 0 "Sonnets" "1", Sample.book 2 "Sonnets" "3"] := by
  constructor
  · refine (@fetch_eq_fetch_filter Record Bool _).1 _ _ |>.2 ?_
    simp only [List.mem_cons, Option.some.injEq, List.not_mem_nil, or_false, reduceCtorEq, false_or]
    rintro part (rfl | rfl | rfl) <;> decide
  · have hsorted : [Sample.book 0 "Sonnets" "1", Sample.book 2 "Sonnets" "3"].Pairwise fun a b =>
        ((RowOrder.mk [(⟨"title"⟩, .asc), (⟨"isbn"⟩, .asc)]).compare a b).isLE = true := by
      decide
    refine ⟨⟨⟨[(⟨"title"⟩, .asc), (⟨"isbn"⟩, .asc)]⟩, ⟨"isbn"⟩, .numbered 1 10⟩, rfl, ?_⟩
    rw [(@fetch_eq_fetch_filter Record Bool _).2, fetch, matching_eq]
    exact congrArg (List.take 10) (RowOrder.sort_of_pairwise hsorted)

namespace Query

/-! ## Places in the store -/

/-- The identity takes part in an ordering that was completed with it. -/
theorem isTotal_completed (fields : List (Column × Direction)) (identity : Column) (standard : Direction) :
    (completed fields identity standard).isTotal identity = true := by
  unfold completed
  split
  · assumption
  · simp [RowOrder.isTotal]

/-- The identity takes part in the order of every query. -/
theorem isTotal_of_ofListing [DecidableEq κ] {d : Definition κ} {listing : Listing κ} {q : Query κ}
    (h : ofListing d listing = .ok q) : q.order.isTotal d.identity = true := by
  unfold ofListing at h
  split at h
  · obtain ⟨column, -, h⟩ := Except.exists_of_bind_eq_ok h
    obtain ⟨seek, -, h⟩ := Except.exists_of_bind_eq_ok h
    cases h
    simp [cursorOrder, RowOrder.isTotal]
  · obtain ⟨fields, -, h⟩ := Except.exists_of_bind_eq_ok h
    cases h
    exact isTotal_completed fields d.identity d.defaultSort.direction

/-- Rows of different identity do not compare equal when the identity takes part. -/
theorem compare_ne_eq_of_isTotal [Row ρ] {order : RowOrder} {identity : Column} (h : order.isTotal identity = true) {a b : ρ}
    (hne : RowOrder.compareSlots (Row.field a identity) (Row.field b identity) ≠ .eq) : order.compare a b ≠ .eq := by
  intro heq
  obtain ⟨field, hfield, hidentity⟩ := List.any_eq_true.1 h
  refine hne ?_
  rw [← of_decide_eq_true hidentity, RowOrder.compare_eq_eq_iff.1 heq field hfield]
  exact Std.ReflCmp.compare_self

/-- The identity takes part in the order of a query in either mode. So the query fetches the same rows in the same order from two
stores of the same rows, whatever these hold in other columns, when no two of them have the same identity. -/
theorem fetch_eq_of_perm [DecidableEq κ] [Row ρ] (d : Definition κ) (listing : Listing κ) (q : Query κ)
    (h : ofListing d listing = .ok q) :
    q.order.isTotal d.identity = true ∧ ∀ (filter : Option Predicate) (rows rows' : List ρ), rows.Perm rows' →
      (rows.Pairwise fun a b => RowOrder.compareSlots (Row.field a d.identity) (Row.field b d.identity) ≠ .eq) →
      q.fetch filter rows = q.fetch filter rows' := by
  have htotal := isTotal_of_ofListing h
  refine ⟨htotal, ?_⟩
  intro filter rows rows' hperm hdistinct
  have hmatching : q.matching filter rows = q.matching filter rows' := by
    refine RowOrder.sort_eq_of_perm (hperm.filter _) ?_
    exact (hdistinct.imp (compare_ne_eq_of_isTotal htotal)).filter _
  rw [fetch, fetch, hmatching]

end Query

/-- Three books, one of them without a number. -/
def Sample.pile : List Record :=
  [book 0 "Sonnets" "3", ⟨1, [(⟨"title"⟩, .text "Sonnets")]⟩, book 2 "Hamlet" "2"]

/-- The first two books of the pile, last title first, are the same when it is turned over. -/
theorem Query.fetch_eq_of_perm_pile :
    ∃ q, ofListing (Sample.books true) ⟨.offset 1 2, [⟨true, .desc⟩, ⟨true, .asc⟩], nofun⟩ = .ok q ∧
      q.fetch none Sample.pile = q.fetch none Sample.pile.reverse := by
  refine ⟨_, rfl, ?_⟩
  refine (fetch_eq_of_perm (Sample.books true) ⟨.offset 1 2, [⟨true, .desc⟩, ⟨true, .asc⟩], nofun⟩ _ rfl).2 none _ _
    (List.reverse_perm Sample.pile).symm ?_
  decide

end Keyset
