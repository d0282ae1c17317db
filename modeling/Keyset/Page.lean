import Keyset.Json.Basic
import Keyset.Json.Record

/-!
# Pages

Rows with what a client needs to go on: the cursor of the next page, or the numbers of pages and rows.
-/

namespace Keyset

/-- Whether a page follows, and the cursor to ask for it (`CursorPageMeta`). -/
structure CursorInfo where
  hasNextPage : Bool
  nextCursor : Option String
  deriving DecidableEq

/-- The number and size of a page, the number of pages and of all rows (`OffsetPageMeta`). -/
structure OffsetInfo where
  page : UInt32
  pageSize : UInt32
  pageCount : UInt64
  total : UInt64
  deriving DecidableEq

/-- Rows of a list and where they stand in it. -/
structure Page (ρ ι : Type) where
  data : List ρ
  pagination : ι
  deriving DecidableEq

namespace CursorInfo

/-- The document of the information of a cursor page. -/
def toJson (info : CursorInfo) : Json :=
  .object [("hasNextPage", .bool info.hasNextPage), ("nextCursor", .optional .text info.nextCursor)]

/-- The fields of the information of a cursor page. -/
def fields : List (Json.Field CursorInfo) :=
  [.of "hasNextPage" .required .bool fun hasNextPage info => { info with hasNextPage },
    .of "nextCursor" .nullable (.optional .text) fun nextCursor info => { info with nextCursor }]

/-- Reads the information of a cursor page. -/
def decoder : Json.Decoder CursorInfo :=
  .record fields .ignored ⟨false, none⟩

end CursorInfo

namespace OffsetInfo

/-- The numbers of a page among `total` rows; the last page may be shorter, and pages of no rows are not counted. -/
def of (page pageSize : UInt32) (total : UInt64) : OffsetInfo :=
  ⟨page, pageSize, UInt64.ofNat ((total.toNat + (pageSize.toNat - 1)) / pageSize.toNat), total⟩

/-- Whether a later page exists. -/
def hasNextPage (info : OffsetInfo) : Bool :=
  info.page.toNat < info.pageCount.toNat

/-- The document of the information of a numbered page. -/
def toJson (info : OffsetInfo) : Json :=
  .object [("page", .number info.page.toNat), ("pageSize", .number info.pageSize.toNat),
    ("pageCount", .number info.pageCount.toNat), ("total", .number info.total.toNat)]

/-- The fields of the information of a numbered page. -/
def fields : List (Json.Field OffsetInfo) :=
  [.of "page" .required .uint32 fun page info => { info with page },
    .of "pageSize" .required .uint32 fun pageSize info => { info with pageSize },
    .of "pageCount" .required .uint64 fun pageCount info => { info with pageCount },
    .of "total" .required .uint64 fun total info => { info with total }]

/-- Reads the information of a numbered page. -/
def decoder : Json.Decoder OffsetInfo :=
  .record fields .ignored ⟨0, 0, 0, 0⟩

end OffsetInfo

namespace Page

/-- The page with every row changed. -/
def map (f : ρ → σ) (page : Page ρ ι) : Page σ ι :=
  ⟨page.data.map f, page.pagination⟩

/-- The document of a page, given those of rows and of the information. -/
def toJson (row : ρ → Json) (info : ι → Json) (page : Page ρ ι) : Json :=
  .object [("data", .array (page.data.map row)), ("pagination", info page.pagination)]

/-- The fields of a page, given how rows and the information are read. -/
def fields (row : Json.Decoder ρ) (info : Json.Decoder ι) : List (Json.Field (Page ρ ι)) :=
  [.of "data" .required (.list row) fun data page => { page with data },
    .of "pagination" .required info fun pagination page => { page with pagination }]

/-- The page in a document; `blank` stands for the information until it is read. -/
def decoder (row : Json.Decoder ρ) (info : Json.Decoder ι) (blank : ι) : Json.Decoder (Page ρ ι) :=
  .record (fields row info) .ignored ⟨[], blank⟩

end Page

end Keyset
