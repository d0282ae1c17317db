import Keyset.Proofs.Query.Cursor
import Keyset.Proofs.Query.Stored
import Keyset.Proofs.Sample

/-!
# What a page behind a cursor tells

A page tells whether more rows follow, and hands out the cursor of its own last row: `Query.isFaithful_cursorPage`. The row that is
fetched beyond the page is neither in it nor in its cursor, whatever the rows hold.
-/

namespace Keyset

variable [Row ρ]

/-- A page of the first of some rows, which tells whether more of them follow. It has a cursor when they do and its last row has a
value in the sort column and an identity, namely the token of these two. -/
structure Page.IsFaithful (page : Page ρ CursorInfo) (column identity : Column) (limit : Nat) (rows : List ρ) : Prop where
  data_eq : page.data = rows.take (min limit rows.length)
  hasNextPage_iff : page.pagination.hasNextPage = true ↔ limit < rows.length
  nextCursor_iff : ∀ token, page.pagination.nextCursor = some token ↔ limit < rows.length ∧ 1 ≤ limit ∧
    ∃ last value id, page.data.getLast? = some last ∧ Row.field last column = some value ∧ Row.field last identity = some id ∧
      token = Boundary.token ⟨value, id⟩

/-- The cursor at a last row is the token of what the row has in both columns. -/
theorem Boundary.map_token_eq_some_iff {column identity : Column} {last : Option ρ} {token : String} :
    (last.bind (ofRow? column identity)).map Boundary.token = some token ↔
      ∃ row value id, last = some row ∧ Row.field row column = some value ∧ Row.field row identity = some id ∧
        token = Boundary.token ⟨value, id⟩ := by
  constructor
  · intro h
    obtain ⟨boundary, hbind, rfl⟩ := Option.map_eq_some_iff.1 h
    obtain ⟨row, hlast, hrow⟩ := Option.bind_eq_some_iff.1 hbind
    exact ⟨row, boundary.value, boundary.id, hlast, (ofRow?_eq_some hrow).1, (ofRow?_eq_some hrow).2, rfl⟩
  · rintro ⟨row, value, id, rfl, hvalue, hid, rfl⟩
    simp only [Option.bind_some, ofRow?, hvalue, hid, Option.map_some]

/-- The first page of rows is faithful to them, unless no greater number can be asked for. -/
theorem Page.isFaithful_first (column identity : Column) {limit : UInt32} (hlimit : limit ≠ Window.maxWord) (rows : List ρ) :
    (first column identity limit rows).IsFaithful column identity limit.toNat rows := by
  constructor
  · rw [first, ← List.take_eq_take_min]
  · simp [first, hlimit]
  · intro token
    by_cases hmore : limit.toNat < rows.length
    · simp only [first, ne_eq, hlimit, not_false_eq_true, true_and, hmore, if_true, Boundary.map_token_eq_some_iff]
      constructor
      · rintro ⟨last, value, id, hlast, hrow⟩
        refine ⟨?_, last, value, id, hlast, hrow⟩
        -- A page without rows has no last row.
        rw [Nat.one_le_iff_ne_zero]
        intro hzero
        rw [hzero] at hlast
        cases hlast
      · rintro ⟨-, hrow⟩
        exact hrow
    · simp [first, hmore]

/-- In the cursor mode the page that is made of fetched rows has the first of all that match, in order, and is faithful to them. -/
theorem Query.isFaithful_cursorPage [DecidableEq κ] (d : Definition κ) (listing : Listing κ) (limit : UInt32) (cursor : Option String)
    (hwindow : listing.window = .cursor limit cursor) (q : Query κ) (h : ofListing d listing = .ok q)
    (hlimit : limit.toNat < 4294967295) (filter : Option Predicate) (rows : List ρ) :
    (q.cursorPage (q.fetch filter rows)).IsFaithful (d.table.column (listing.sorts.headD d.defaultSort).key) d.identity limit.toNat
      (q.order.sort (rows.filter fun row => Predicate.admits filter row && Predicate.admits q.seek row)) := by
  rw [ofListing_eq_byCursor hwindow] at h
  obtain ⟨seek, -, rfl⟩ := Definition.exists_of_ofListing h
  have hword : limit ≠ Window.maxWord := by
    rintro rfl
    exact Nat.lt_irrefl _ hlimit
  rw [cursorPage_fetch rfl filter rows, matching, funext (admits_whereClause _ filter)]
  exact Page.isFaithful_first _ _ hword _

/-- Two of the three books of the pile are on a page by title, although one of them has no number: a book follows. -/
theorem Query.isFaithful_cursorPage_pile :
    ∃ q, ofListing (Sample.books true) (.byCursor ⟨true, .asc⟩ 2 none) = .ok q ∧
      (q.cursorPage (q.fetch none Sample.pile)).data.length = 2 ∧
      (q.cursorPage (q.fetch none Sample.pile)).pagination.hasNextPage = true := by
  refine ⟨_, rfl, ?_⟩
  have hfaithful := isFaithful_cursorPage (Sample.books true) (.byCursor ⟨true, .asc⟩ 2 none) 2 none rfl _ rfl (by decide) none
    Sample.pile
  have hcount : ∀ order : RowOrder, (order.sort (Sample.pile.filter fun _ => true)).length = 3 := by
    intro order
    exact (order.sort_perm _).length_eq
  constructor
  · rw [hfaithful.data_eq, List.length_take]
    exact congrArg (fun n => min (min 2 n) n) (hcount _)
  · exact hfaithful.hasNextPage_iff.2 (Nat.lt_of_lt_of_eq (by decide) (hcount _).symm)

end Keyset
