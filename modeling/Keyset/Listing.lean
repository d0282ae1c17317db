import Keyset.Definition
import Keyset.Request.Document

/-!
# Listings

A listing (`ListQueryInput`) is a request that passed validation: one window with every default filled in, and sorts by key. What is
out of range is refused with the number as it was asked, never adjusted.
-/

namespace Keyset

/-- Why a request is refused (`ValidationError`). -/
inductive RequestError where
  | limitOutOfRange (limit : Int64) (max : UInt32)
  | pageOutOfRange (page : Int64)
  | pageSizeOutOfRange (pageSize : Int64) (max : UInt32)
  | unknownSortColumn (name : String)
  | cursorMultiSort (count : Nat)
  | malformed (fault : Json.Fault)
  deriving DecidableEq

/-- The wording of an error. -/
def RequestError.message : RequestError → String
  | .limitOutOfRange limit max => s!"cursor limit {limit} is out of range (expected 1..={max})"
  | .pageOutOfRange page => s!"page {page} is out of range (expected >= 1)"
  | .pageSizeOutOfRange pageSize max => s!"page size {pageSize} is out of range (expected 1..={max})"
  | .unknownSortColumn name => "unknown sort column '" ++ name ++ "'"
  | .cursorMultiSort count => s!"cursor mode does not support multiple sort columns (found {count})"
  | .malformed fault => "malformed list query request: " ++ fault.message

/-- The part of the list that is asked for, with every default filled in (`Pagination`). -/
inductive Window where
  | cursor (limit : UInt32) (token : Option String)
  | offset (page pageSize : UInt32)
  deriving DecidableEq

namespace Window

/-- The mode of a window. -/
def mode : Window → Paging.Mode
  | .cursor .. => .cursor
  | .offset .. => .offset

/-- How many rows a page has at most. -/
def pageLimit : Window → UInt32
  | .cursor limit _ => limit
  | .offset _ pageSize => pageSize

/-- A number as a word, if it is at least one and at most `max`. -/
def bounded? (n : Int64) (max : UInt32) : Option UInt32 :=
  if 1 ≤ n.toInt ∧ n.toInt ≤ max.toNat then some (UInt32.ofNat n.toInt.toNat) else none

/-- A number that may be missing, inside `1..=max`, or else a fault. -/
def boundedOr (standard max : UInt32) (fault : Int64 → RequestError) : Option Int64 → Except RequestError UInt32
  | none => .ok standard
  | some n =>
    match bounded? n max with
    | some word => .ok word
    | none => .error (fault n)

/-- The greatest 32-bit word. -/
def maxWord : UInt32 :=
  0xFFFFFFFF

/-- The window of a request; an empty cursor counts as none (`from_request`). -/
def ofPaging (policy : Policy) : Option Paging → Except RequestError Window
  | none => .ok (.cursor policy.defaultLimit none)
  | some (.cursor limit token) => do
    let limit ← boundedOr policy.defaultLimit policy.maxLimit (.limitOutOfRange · policy.maxLimit) limit
    return .cursor limit (token.filter (· ≠ ""))
  | some (.offset page pageSize) => do
    let page ← boundedOr 1 maxWord .pageOutOfRange page
    let pageSize ← boundedOr policy.defaultPageSize policy.maxPageSize (.pageSizeOutOfRange · policy.maxPageSize) pageSize
    return .offset page pageSize

end Window

/-- A validated request: a window and sorts, of which the cursor mode takes at most one (`ListQueryInput`). -/
structure Listing (κ : Type) where
  window : Window
  sorts : List (SortBy κ)
  single : window.mode = .cursor → sorts.length ≤ 1

namespace Listing

/-- The listing of a window and sorts, unless there are too many sorts for a cursor (`new`). -/
def make (window : Window) (sorts : List (SortBy κ)) : Except RequestError (Listing κ) :=
  if h : window.mode = .cursor → sorts.length ≤ 1 then .ok ⟨window, sorts, h⟩
  else .error (.cursorMultiSort sorts.length)

/-- The listing of the page behind a cursor, by one sort. -/
def byCursor (sort : SortBy κ) (limit : UInt32) (token : Option String) : Listing κ :=
  ⟨.cursor limit token, [sort], fun _ => Nat.le_refl 1⟩

/-- The sorts by key of sorts by name, up to the first name that no exposed key has. -/
def resolveSorts (table : SortTable κ) : List NamedSort → Except RequestError (List (SortBy κ))
  | [] => .ok []
  | sort :: sorts =>
    match table.find? sort.name with
    | none => .error (.unknownSortColumn sort.name)
    | some key => do
      let rest ← resolveSorts table sorts
      return ⟨key, sort.direction⟩ :: rest

/-- Validates a request against a definition: the window first, then the sorts, then their number (`validate`). -/
def ofRequest (d : Definition κ) (request : Request) : Except RequestError (Listing κ) := do
  let window ← Window.ofPaging d.policy request.paging
  let sorts ← resolveSorts d.table (request.sort.getD [])
  make window sorts

end Listing

/-- The request in a document. -/
def Request.ofJson (text : String) : Except RequestError Request :=
  (Request.decoder.decodeText text).mapError .malformed

/-- The validated request in a document. -/
def Listing.ofJson (d : Definition κ) (text : String) : Except RequestError (Listing κ) :=
  Request.ofJson text >>= Listing.ofRequest d

end Keyset
