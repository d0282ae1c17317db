import Keyset.Proofs.Predicate
import Keyset.Query.Fetch

/-!
# The page of a query

The rows that match a query are those that the caller admits and the query does (`Query.matching_eq`). `Query.cursorPage_fetch`: the
page behind a cursor is the first one of these, in order. The row that is fetched beyond the page is only counted.
-/

namespace Keyset

variable [Row ρ]

/-- The first page of rows in order. It is said to be followed by another when more rows are left than its limit, unless no
greater number can be asked for. -/
def Page.first (column identity : Column) (limit : UInt32) (rows : List ρ) : Page ρ CursorInfo :=
  let more := limit ≠ Window.maxWord ∧ limit.toNat < rows.length
  ⟨rows.take limit.toNat, more,
    if more then ((rows.take limit.toNat).getLast?.bind (Boundary.ofRow? column identity)).map Boundary.token else none⟩

namespace Query

theorem admits_whereClause (q : Query κ) (filter : Option Predicate) (row : ρ) :
    Predicate.admits (q.whereClause filter) row = (Predicate.admits filter row && Predicate.admits q.seek row) := by
  simp [whereClause, Predicate.admits_conjoin]

/-- The rows that match are those that the caller admits and the query does, in order. -/
theorem matching_eq (q : Query κ) (filter : Option Predicate) (rows : List ρ) :
    q.matching filter rows = q.order.sort ((rows.filter (Predicate.admits filter)).filter (Predicate.admits q.seek)) := by
  rw [matching, List.filter_filter]
  congr 1
  refine List.filter_congr ?_
  intro r _
  rw [admits_whereClause, Bool.and_comm]

/-- Behind a cursor one more row is fetched than the page has, unless no greater number can be asked for. -/
theorem toNat_limit {q : Query κ} {sort : SortBy κ} {column : Column} {seek : Option Predicate} {limit : UInt32}
    (h : q.slice = .behind sort column seek limit) :
    q.limit.toNat = if limit = Window.maxWord then limit.toNat else limit.toNat + 1 := by
  obtain ⟨order, identity, slice⟩ := q
  cases h
  have hword : Query.limit ⟨order, identity, .behind sort column seek limit⟩ =
      if limit = Window.maxWord then limit else limit + 1 := rfl
  rw [hword]
  split
  · rfl
  · rename_i hmax
    have hne : limit.toNat ≠ 4294967295 := by
      intro heq
      exact hmax (UInt32.toNat_inj.1 heq)
    have hlt := limit.toNat_lt
    rw [UInt32.toNat_add, UInt32.toNat_one, Nat.mod_eq_of_lt (by omega)]

/-- The page behind a cursor is the first page of the rows that match. -/
theorem cursorPage_fetch {q : Query κ} {sort : SortBy κ} {column : Column} {seek : Option Predicate} {limit : UInt32}
    (h : q.slice = .behind sort column seek limit) (filter : Option Predicate) (rows : List ρ) :
    q.cursorPage (q.fetch filter rows) = Page.first column q.identity limit (q.matching filter rows) := by
  have hlimit := toNat_limit h
  have hfetch : q.fetch filter rows = (q.matching filter rows).take q.limit.toNat := by
    rw [fetch, offset?, h]
    rfl
  have htake : (q.fetch filter rows).take limit.toNat = (q.matching filter rows).take limit.toNat := by
    rw [hfetch, List.take_take, Nat.min_eq_left (by split at hlimit <;> omega)]
  have hmore : limit.toNat < (q.fetch filter rows).length ↔
      limit ≠ Window.maxWord ∧ limit.toNat < (q.matching filter rows).length := by
    rw [hfetch, List.length_take]
    by_cases hmax : limit = Window.maxWord
    · rw [if_pos hmax] at hlimit
      constructor
      · intro hlt
        omega
      · intro hlt
        exact absurd hmax hlt.1
    · rw [if_neg hmax] at hlimit
      constructor
      · intro hlt
        exact ⟨hmax, by omega⟩
      · intro hlt
        omega
  have hpage : q.pageLimit = limit := by
    rw [pageLimit, h]
  have hcolumn : q.cursorColumn? = some column := by
    rw [cursorColumn?, h]
  simp only [cursorPage, Query.nextCursor, Keyset.nextCursor, hpage, hcolumn, htake, Page.first, ← Nat.not_lt, hmore, ite_not]

end Query

end Keyset
