import Keyset.Json.Basic
import Keyset.Json.Record
import Keyset.Request

/-!
# Requests as documents

The document of a request, written by `Request.toJson` and read by `Request.decoder`. Keys that do not belong to the
request are ignored. The mode of the paging may stand at any place among its members; the others are kept until it is
known, so every one of them has to be readable.
-/

namespace Keyset

namespace Json.Reading

mutual

/-- Whether a value can be kept: every text is paired, every number in range, every container closed, and no more than
`depth` containers stand inside each other. -/
def isKeepable (depth : Nat) : Reading → Bool
  | .null | .bool _ => true
  | .number value => value ≠ .excessive
  | .text value => value.isSome
  | .array items ending =>
    match depth with
    | 0 => false
    | depth + 1 => allKeepable depth items && ending = .closed
  | .object members ending =>
    match depth with
    | 0 => false
    | depth + 1 => membersKeepable depth members && ending = .closed
  | .broken => false

/-- Whether all of some values can be kept. -/
def allKeepable (depth : Nat) : List Reading → Bool
  | [] => true
  | item :: items => isKeepable depth item && allKeepable depth items

/-- Whether the keys and values of an object can be kept. -/
def membersKeepable (depth : Nat) : List (Option String × Reading) → Bool
  | [] => true
  | (key, value) :: members => key.isSome && isKeepable depth value && membersKeepable depth members

end

end Json.Reading

namespace Direction

/-- A direction by its name. -/
def decoder : Json.Decoder Direction :=
  .choice [("asc", .asc), ("desc", .desc)]

end Direction

namespace NamedSort

/-- The document of a sort. -/
def toJson (sort : NamedSort) : Json :=
  .object [("column", .text sort.name), ("direction", .text sort.direction.name)]

/-- The fields of a sort. -/
def fields : List (Json.Field NamedSort) :=
  [.of "column" .required .text fun name sort => { sort with name },
    .of "direction" .required Direction.decoder fun direction sort => { sort with direction }]

/-- Reads a sort, in which no other key may stand. -/
def decoder : Json.Decoder NamedSort :=
  .record fields .refused ⟨"", .asc⟩

end NamedSort

namespace Paging

/-- The document of the paging; the mode comes first, and numbers that are absent are null. -/
def toJson : Paging → Json
  | .cursor limit token =>
    .object [("mode", .text "cursor"), ("limit", .optional (.number ·.toInt) limit),
      ("cursor", .optional .text token)]
  | .offset page pageSize =>
    .object [("mode", .text "offset"), ("page", .optional (.number ·.toInt) page),
      ("pageSize", .optional (.number ·.toInt) pageSize)]

/-- A mode by its name, which has to be a text. -/
def modeDecoder (value : Json.Reading) : Except Json.Fault Mode := do
  let name ← Json.Decoder.text value
  Json.Decoder.named [("cursor", .cursor), ("offset", .offset)] name

/-- The fields of the cursor mode, as a pair of limit and token. -/
def cursorFields : List (Json.Field (Option Int64 × Option String)) :=
  [.of "limit" .defaulted (.optional .int64) fun limit paging => (limit, paging.2),
    .of "cursor" .defaulted (.optional .text) fun token paging => (paging.1, token)]

/-- The fields of the offset mode, as a pair of page and page size. -/
def offsetFields : List (Json.Field (Option Int64 × Option Int64)) :=
  [.of "page" .defaulted (.optional .int64) fun page paging => (page, paging.2),
    .of "pageSize" .defaulted (.optional .int64) fun pageSize paging => (paging.1, pageSize)]

/-- How many containers may stand inside each other in a member of the paging: the request and the paging are open
around it, and 127 may be open at once. -/
def keptDepth : Nat :=
  125

/-- The paging in a mode, from the members of an object. -/
def ofMembers (members : List Json.Member) : Mode → Except Json.Fault Paging
  | .cursor => do
    let (limit, token) ← Json.Decoder.object cursorFields .ignored (none, none) members .closed
    return .cursor limit token
  | .offset => do
    let (page, pageSize) ← Json.Decoder.object offsetFields .ignored (none, none) members .closed
    return .offset page pageSize

/-- The paging in a mode, from the items of an array that follow the mode. -/
def ofItems (items : List Json.Reading) : Mode → Except Json.Fault Paging
  | .cursor => do
    let (limit, token) ← Json.Decoder.fields .invalidLength cursorFields items .closed (none, none)
    return .cursor limit token
  | .offset => do
    let (page, pageSize) ← Json.Decoder.fields .invalidLength offsetFields items .closed (none, none)
    return .offset page pageSize

/-- Looks for the mode among members: each of the others must be keepable. -/
def findMode : Option Mode → List Json.Member → Except Json.Fault (Option Mode)
  | mode, [] => .ok mode
  | mode, (key, value) :: members =>
    if key = some "mode" then
      if mode.isSome then .error (.duplicateField "mode")
      else do
        let mode ← modeDecoder value
        findMode (some mode) members
    else if key.isSome ∧ value.isKeepable keptDepth then findMode mode members
    else .error .malformed

/-- Reads the paging: an object with the mode among its members, or an array that begins with the mode. -/
def decoder : Json.Decoder Paging
  | .object members ending => do
    let mode ← findMode none members
    if ending ≠ .closed then throw .malformed
    match mode with
    | some mode => ofMembers (members.filter (·.1 ≠ some "mode")) mode
    | none => throw (.missingField "mode")
  | .array [] ending => .error (if ending = .closed then .missingField "mode" else .malformed)
  | .array (tag :: items) ending => do
    let mode ← modeDecoder tag
    if ending = .closed ∧ Json.Reading.allKeepable keptDepth items then ofItems items mode else throw .malformed
  | other => .error other.typeFault

end Paging

namespace Request

/-- The document of a request; parts that are absent are left out. -/
def toJson (request : Request) : Json :=
  .object <|
    (match request.paging with
    | some paging => [("pagination", paging.toJson)]
    | none => []) ++
    (match request.sort with
    | some sorts => [("sort", .array (sorts.map NamedSort.toJson))]
    | none => [])

/-- The fields of a request. -/
def fields : List (Json.Field Request) :=
  [.of "pagination" .defaulted (.optional Paging.decoder) fun paging request => { request with paging },
    .of "sort" .defaulted (.optional (.list NamedSort.decoder)) fun sort request => { request with sort }]

/-- Reads a request; other keys are ignored. -/
def decoder : Json.Decoder Request :=
  .record fields .ignored {}

end Request

end Keyset
