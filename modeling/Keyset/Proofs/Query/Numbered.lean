import Mathlib.Algebra.Order.Floor.Div
import Keyset.Proofs.Query.Fetch
import Keyset.Proofs.Query.Sorts
import Keyset.Proofs.RowOrder
import Keyset.Proofs.Sample
import Keyset.Store

/-!
# Numbered pages

A page by its number is a slice of the rows that the caller admits, in an order that all pages share (`Query.fetch_byNumber`). Counting
is apart from fetching, but tells the number of the same rows (`countMatching_eq`), so the pages up to the last one put end to end
are these rows (`Definition.numbered_pages_partition`).
-/

namespace Keyset

variable [Row ρ]

/-! ## Slices -/

/-- The rows of a page by its number: as many as its size behind those of the pages before. -/
def Page.slice (rows : List ρ) (number size : Nat) : List ρ :=
  (rows.take (number * size)).drop ((number - 1) * size)

omit [Row ρ] in
/-- A slice is what is taken behind the pages before it. -/
theorem Page.slice_eq {number : Nat} (h : 1 ≤ number) (rows : List ρ) (size : Nat) :
    slice rows number size = (rows.drop ((number - 1) * size)).take size := by
  obtain ⟨before, rfl⟩ := Nat.exists_eq_add_of_le' h
  rw [slice, Nat.add_sub_cancel, Nat.succ_mul, List.take_drop]

omit [Row ρ] in
/-- The slices up to a number, put end to end, are the first rows. -/
theorem Page.flatMap_slice (rows : List ρ) (size count : Nat) :
    (List.range count).flatMap (fun i => slice rows (i + 1) size) = rows.take (count * size) := by
  induction count with
  | zero => rw [Nat.zero_mul, List.take_zero, List.range_zero, List.flatMap_nil]
  | succ count ih =>
    rw [List.range_succ, List.flatMap_append, ih, List.flatMap_singleton, slice_eq (Nat.le_add_left 1 count), Nat.add_sub_cancel,
      ← List.take_add, Nat.succ_mul]

/-! ## Counting -/

/-- The count is exact as long as it is a word. -/
theorem countMatching_eq {rows : List ρ} {filter : Option Predicate} (h : rows.length < UInt64.size) :
    (countMatching rows filter).toNat = (rows.filter (Predicate.admits filter)).length := by
  have hle : rows.countP (Predicate.admits filter) ≤ rows.length := List.countP_le_length
  have hsize : UInt64.size = 18446744073709551616 := rfl
  rw [countMatching, Nat.min_eq_left (by omega), UInt64.toNat_ofNat_of_lt' (by omega), List.countP_eq_length_filter]

namespace OffsetInfo

/-- Pages are counted up to the last that is begun. -/
theorem toNat_pageCount_of (page : UInt32) {pageSize : UInt32} (h : 1 ≤ pageSize.toNat) (total : UInt64) :
    (OffsetInfo.of page pageSize total).pageCount.toNat = total.toNat ⌈/⌉ pageSize.toNat := by
  have hle : (total.toNat + (pageSize.toNat - 1)) / pageSize.toNat ≤ total.toNat := by
    rw [Nat.div_le_iff_le_mul_add_pred h]
    have hmul : total.toNat ≤ pageSize.toNat * total.toNat := Nat.le_mul_of_pos_left _ h
    omega
  have hlt := total.toNat_lt
  rw [OffsetInfo.of, UInt64.toNat_ofNat_of_lt' (Nat.lt_of_le_of_lt hle hlt), Nat.ceilDiv_eq_add_pred_div, Nat.add_sub_assoc h]

theorem lt_ceilDiv_iff {size : Nat} (h : 1 ≤ size) {total number : Nat} : number < total ⌈/⌉ size ↔ number * size < total := by
  rw [← Nat.not_le, ceilDiv_le_iff_le_mul h, Nat.not_le, Nat.mul_comm]

end OffsetInfo

namespace Query

/-! ## Fetching -/

variable {q : Query κ} {page pageSize : UInt32}

/-- The rows that a page skips are counted without overflow. -/
theorem toNat_offset? (h : q.slice = .numbered page pageSize) :
    q.offset?.map UInt64.toNat = some ((page.toNat - 1) * pageSize.toNat) := by
  have hpage := page.toNat_lt
  have hsize := pageSize.toNat_lt
  have hlt : (page.toNat - 1) * pageSize.toNat < 4294967296 * 4294967296 :=
    Nat.mul_lt_mul_of_le_of_lt (by omega) (by omega) (by omega)
  rw [offset?, h, Option.map_some, UInt64.toNat_ofNat_of_lt' hlt]

/-- A page by its number is a slice of the rows that the caller admits, in order. -/
theorem fetch_byNumber (h : q.slice = .numbered page pageSize) (hpage : 1 ≤ page.toNat) (filter : Option Predicate)
    (rows : List ρ) : q.fetch filter rows =
      Page.slice (q.order.sort (rows.filter (Predicate.admits filter))) page.toNat pageSize.toNat := by
  have hmatching : q.matching filter rows = q.order.sort (rows.filter (Predicate.admits filter)) := by
    have hseek : q.seek = none := by rw [seek, h]
    have hall : ∀ r ∈ rows.filter (Predicate.admits filter), Predicate.admits q.seek r = true := by
      intro r _
      rw [hseek]
      rfl
    rw [matching_eq, List.filter_eq_self.2 hall]
  have hlimit : q.limit = pageSize := by rw [limit, h]
  rw [fetch, toNat_offset? h, hmatching, hlimit, Page.slice_eq hpage, Option.getD_some]

end Query

/-! ## Pages -/

/-- The listing of a page by its number. -/
def Listing.byNumber (sorts : List (SortBy κ)) (page pageSize : UInt32) : Listing κ :=
  ⟨.offset page pageSize, sorts, nofun⟩

/-- The order of the pages by some sorts. -/
def Definition.numberedOrder (d : Definition κ) (sorts : List (SortBy κ)) : RowOrder :=
  Query.completed ((d.sortsOr sorts).map fun sort => (d.table.column sort.key, sort.direction)) d.identity d.defaultSort.direction

/-- The query of a page by its number. -/
def Definition.numberedQuery (d : Definition κ) (sorts : List (SortBy κ)) (page pageSize : UInt32) : Query κ :=
  ⟨d.numberedOrder sorts, d.identity, .numbered page pageSize⟩

omit [Row ρ] in
/-- Exposed sorts have a query for every page. -/
theorem Query.ofListing_byNumber [DecidableEq κ] {d : Definition κ} {sorts : List (SortBy κ)}
    (h : ∀ sort ∈ d.sortsOr sorts, sort.key ∈ d.table.exposed) (page pageSize : UInt32) :
    ofListing d (.byNumber sorts page pageSize) = .ok (d.numberedQuery sorts page pageSize) := by
  have hfields := resolveFields_eq h
  rw [ofListing, Listing.byNumber]
  dsimp only
  rw [← Definition.sortsOr, hfields]
  rfl

/-- A page that holds its slice of rows in order, and tells how many rows and pages there are and whether a page follows. -/
structure Page.IsNumbered (page : Page ρ OffsetInfo) (rows : List ρ) (number size : Nat) : Prop where
  data_eq : page.data = slice rows number size
  number_eq : page.pagination.page.toNat = number
  pageSize_eq : page.pagination.pageSize.toNat = size
  total_eq : page.pagination.total.toNat = rows.length
  pageCount_eq : page.pagination.pageCount.toNat = rows.length ⌈/⌉ size
  data_ne_nil_iff : page.data ≠ [] ↔ number ≤ page.pagination.pageCount.toNat
  hasNextPage_iff : page.pagination.hasNextPage = true ↔ number * size < rows.length

/-- The page made of a query by number, and of the count, is the page of that number. -/
theorem Query.isNumbered_offsetPage {q : Query κ} {page pageSize : UInt32} (h : q.slice = .numbered page pageSize)
    (hpage : 1 ≤ page.toNat) (hsize : 1 ≤ pageSize.toNat) (filter : Option Predicate) {rows : List ρ}
    (hrows : rows.length < UInt64.size) :
    (q.offsetPage (q.fetch filter rows) (countMatching rows filter)).IsNumbered
      (q.order.sort (rows.filter (Predicate.admits filter))) page.toNat pageSize.toNat := by
  have hinfo : q.offsetPage (q.fetch filter rows) (countMatching rows filter) =
      ⟨Page.slice (q.order.sort (rows.filter (Predicate.admits filter))) page.toNat pageSize.toNat,
        .of page pageSize (countMatching rows filter)⟩ := by
    have hlimit : q.pageLimit = pageSize := by rw [pageLimit, h]
    simp only [offsetPage, h, hlimit, fetch_byNumber h hpage]
  have htotal : (countMatching rows filter).toNat = (q.order.sort (rows.filter (Predicate.admits filter))).length := by
    rw [countMatching_eq hrows, (q.order.sort_perm _).length_eq]
  have hcount := OffsetInfo.toNat_pageCount_of page hsize (countMatching rows filter)
  rw [htotal] at hcount
  rw [hinfo]
  generalize q.order.sort (rows.filter (Predicate.admits filter)) = sorted at htotal hcount ⊢
  refine ⟨rfl, rfl, rfl, htotal, hcount, ?_, ?_⟩
  · obtain ⟨before, hbefore⟩ := Nat.exists_eq_add_of_le' hpage
    rw [hcount, Page.slice_eq hpage, ← List.length_pos_iff, List.length_take, List.length_drop, hbefore, Nat.succ_le_iff,
      OffsetInfo.lt_ceilDiv_iff hsize, Nat.add_sub_cancel]
    omega
  · rw [OffsetInfo.hasNextPage, decide_eq_true_iff, hcount]
    exact OffsetInfo.lt_ceilDiv_iff hsize

/-- What a client finds that asks for pages by number: the rows that the caller admits, in an order, cut into pages. -/
structure Definition.ServesByNumber [DecidableEq κ] (d : Definition κ) (sorts : List (SortBy κ)) (filter : Option Predicate)
    (rows : List ρ) (order : RowOrder) : Prop where
  /-- The count is the number of these rows. -/
  count_eq : (countMatching rows filter).toNat = (order.sort (rows.filter (Predicate.admits filter))).length
  /-- Every page has a query in this order; the rows that it skips are counted without overflow, and it gives the page. -/
  isNumbered : ∀ page pageSize : UInt32, 1 ≤ page.toNat → 1 ≤ pageSize.toNat →
    ∃ q, Query.ofListing d (.byNumber sorts page pageSize) = .ok q ∧ q.order = order ∧
      q.offset?.map UInt64.toNat = some ((page.toNat - 1) * pageSize.toNat) ∧
      (q.offsetPage (q.fetch filter rows) (countMatching rows filter)).IsNumbered
        (order.sort (rows.filter (Predicate.admits filter))) page.toNat pageSize.toNat
  /-- As long as the pages have numbers they give, put end to end, every row once and in order. -/
  rows_eq : ∀ pageSize : UInt32, 1 ≤ pageSize.toNat →
    (order.sort (rows.filter (Predicate.admits filter))).length ⌈/⌉ pageSize.toNat < UInt32.size →
    ∃ pages : List (Page ρ OffsetInfo),
      (List.range ((order.sort (rows.filter (Predicate.admits filter))).length ⌈/⌉ pageSize.toNat)).map
        (fun i => d.offsetPage filter rows (.byNumber sorts (UInt32.ofNat (i + 1)) pageSize)) = pages.map .ok ∧
      pages.flatMap Page.data = order.sort (rows.filter (Predicate.admits filter))

/-- Whatever the rows hold, and by any exposed sorts: the pages by number are the rows that the caller admits, in one order for all
numbers and sizes. -/
theorem Definition.numbered_pages_partition [DecidableEq κ] (d : Definition κ) (sorts : List (SortBy κ))
    (hexposed : ∀ sort ∈ d.sortsOr sorts, sort.key ∈ d.table.exposed) (filter : Option Predicate) (rows : List ρ)
    (hrows : rows.length < UInt64.size) : ∃ order, d.ServesByNumber sorts filter rows order := by
  refine ⟨d.numberedOrder sorts, ?_, ?_, ?_⟩
  · rw [countMatching_eq hrows, ((d.numberedOrder sorts).sort_perm _).length_eq]
  · intro page pageSize hpage hsize
    exact ⟨_, Query.ofListing_byNumber hexposed page pageSize, rfl, Query.toNat_offset? rfl,
      Query.isNumbered_offsetPage rfl hpage hsize filter hrows⟩
  · intro pageSize hsize hcount
    generalize hsorted : (d.numberedOrder sorts).sort (rows.filter (Predicate.admits filter)) = sorted at hcount ⊢
    let pageOf (i : Nat) : Page ρ OffsetInfo :=
      let q := d.numberedQuery sorts (UInt32.ofNat (i + 1)) pageSize
      q.offsetPage (q.fetch filter rows) (countMatching rows filter)
    refine ⟨(List.range (sorted.length ⌈/⌉ pageSize.toNat)).map pageOf, ?_, ?_⟩
    · rw [List.map_map]
      refine List.map_congr_left ?_
      intro i _
      rw [offsetPage, Query.ofListing_byNumber hexposed]
      rfl
    · have hdata : ∀ i ∈ List.range (sorted.length ⌈/⌉ pageSize.toNat),
          (pageOf i).data = Page.slice sorted (i + 1) pageSize.toNat := by
        intro i hi
        have hlt := List.mem_range.1 hi
        have hnumber : (UInt32.ofNat (i + 1)).toNat = i + 1 := UInt32.toNat_ofNat_of_lt' (by omega)
        have hslice : (d.numberedQuery sorts (UInt32.ofNat (i + 1)) pageSize).slice = .numbered (UInt32.ofNat (i + 1)) pageSize := rfl
        rw [← hsorted, ← hnumber]
        exact (Query.isNumbered_offsetPage hslice (by omega) hsize filter hrows).data_eq
      have hall : sorted.length ≤ sorted.length ⌈/⌉ pageSize.toNat * pageSize.toNat := by
        rw [Nat.mul_comm, ← ceilDiv_le_iff_le_mul hsize]
      rw [List.flatMap_map, List.flatMap_congr hdata, Page.flatMap_slice, List.take_of_length_le hall]

/-- Three books, two of them with the same title. -/
def Sample.shelf : List Record :=
  [book 0 "Sonnets" "3", book 1 "Hamlet" "2", book 2 "Sonnets" "1"]

/-- The first of the pages of two books, by title and then by number. -/
theorem Definition.numbered_pages_partition_shelf :
    ∃ q, Query.ofListing (Sample.books true) (.byNumber [] 1 2) = .ok q ∧
      let page := q.offsetPage (q.fetch none Sample.shelf) (countMatching Sample.shelf none)
      page.data = [Sample.book 1 "Hamlet" "2", Sample.book 2 "Sonnets" "1"] ∧ page.pagination.page.toNat = 1 ∧
        page.pagination.pageCount.toNat = 2 ∧ page.pagination.total.toNat = 3 ∧ page.pagination.hasNextPage = true := by
  obtain ⟨order, hserves⟩ := numbered_pages_partition (Sample.books true) [] (by decide) none Sample.shelf (by decide)
  obtain ⟨q, hq, horder, -, hpage⟩ := hserves.isNumbered 1 2 (by decide) (by decide)
  have hsorted : order.sort (Sample.shelf.filter (Predicate.admits none)) =
      [Sample.book 1 "Hamlet" "2", Sample.book 2 "Sonnets" "1", Sample.book 0 "Sonnets" "3"] := by
    have hmoved : Sample.shelf.Perm [Sample.book 1 "Hamlet" "2", Sample.book 2 "Sonnets" "1", Sample.book 0 "Sonnets" "3"] :=
      (List.perm_append_singleton (Sample.book 0 "Sonnets" "3") [Sample.book 1 "Hamlet" "2", Sample.book 2 "Sonnets" "1"]).symm
    have hfields : order = ⟨[(⟨"title"⟩, .asc), (⟨"isbn"⟩, .asc)]⟩ := by
      rw [← horder, ← Except.ok.inj hq]
      rfl
    rw [hfields]
    exact (RowOrder.sort_eq_of_perm hmoved (by decide)).trans (RowOrder.sort_of_pairwise (by decide))
  rw [hsorted] at hpage
  exact ⟨q, hq, hpage.data_eq, hpage.number_eq, hpage.pageCount_eq, hpage.total_eq, hpage.hasNextPage_iff.2 (by decide)⟩

end Keyset
