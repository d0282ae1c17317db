import Keyset.Boundary
import Keyset.Json.Basic
import Keyset.Json.Record
import Keyset.Text.Base64
import Keyset.Text.Lexical
import Keyset.Text.Utf8

/-!
# Cursor tokens

A boundary as an opaque text for the client: a small document in URL-safe base64. Every value travels as a text beside
the name of its kind. `Boundary.ofToken` (`decode_cursor`) reads what `Boundary.token` (`encode_cursor`) writes and refuses
everything else with the cause.
-/

namespace Keyset

/-- Why a text is no cursor (`CursorDecodeError`). -/
inductive TokenError where
  | empty
  | tooLong (length max : Nat)
  | encoding (fault : Base64.Fault)
  | payload (fault : Json.Fault)
  /-- A text that writes no value of its kind. -/
  | value (kind : Value.Kind) (text : String)
  deriving DecidableEq

/-- The wording of an error. -/
def TokenError.message : TokenError → String
  | .empty => "cursor token is empty"
  | .tooLong length max => s!"cursor token exceeds max length: {length} chars (max {max})"
  | .encoding fault => "cursor token is not valid base64url: " ++ fault.message
  | .payload fault => "cursor token payload is invalid: " ++ fault.message
  | .value kind text => "cursor value '" ++ text ++ "' is not a valid " ++ kind.name

namespace Boundary

/-- The length in bytes up to which a token is looked at (`MAX_CURSOR_TOKEN_LEN`). -/
def maxTokenLength : Nat :=
  8192

/-- A boundary as it is written: both values as texts beside their kinds (`CursorPayloadWire`). -/
structure Wire where
  value : String
  kind : Value.Kind
  id : String
  idKind : Value.Kind
  deriving DecidableEq

namespace Wire

/-- The document of a boundary; the kind of a text identity is left out. -/
def toJson (wire : Wire) : Json :=
  .object <|
    [("value", .text wire.value), ("type", .text wire.kind.name), ("id", .text wire.id)] ++
    if wire.idKind = .text then [] else [("idType", .text wire.idKind.name)]

/-- A kind by its name. -/
def kindDecoder : Json.Decoder Value.Kind :=
  .choice [("string", .text), ("number", .number), ("date", .date)]

/-- The fields of a cursor document; a kind of the identity that is left out is text. -/
def fields : List (Json.Field Wire) :=
  [.of "value" .required .text fun value wire => { wire with value },
    .of "type" .required kindDecoder fun kind wire => { wire with kind },
    .of "id" .required .text fun id wire => { wire with id },
    .of "idType" .defaulted kindDecoder fun idKind wire => { wire with idKind }]

/-- Reads a cursor document, in which no other key may stand. -/
def decoder : Json.Decoder Wire :=
  .record fields .refused ⟨"", .text, "", .text⟩

end Wire

/-- A boundary with its values as texts (`from_payload`). -/
def toWire (boundary : Boundary) : Wire :=
  ⟨boundary.value.toText, boundary.value.kind, boundary.id.toText, boundary.id.kind⟩

/-- A value that is written as a text of a kind. -/
def readValue (kind : Value.Kind) (text : String) : Except TokenError Value :=
  match Value.ofText? kind text with
  | some value => .ok value
  | none => .error (.value kind text)

/-- The boundary that a document writes; a fault of the sort value comes before one of the identity (`into_payload`). -/
def ofWire (wire : Wire) : Except TokenError Boundary := do
  let value ← readValue wire.kind wire.value
  let id ← readValue wire.idKind wire.id
  return ⟨value, id⟩

/-- The token of a boundary (`encode_cursor`). Any boundary has one, of whatever length. -/
def token (boundary : Boundary) : String :=
  String.ofList (Base64.encode (Utf8.encode boundary.toWire.toJson.chars))

/-- The document in a token, given by the bytes of its text. -/
def wireOfBytes (bytes : List UInt8) : Except TokenError Wire := do
  let payload ← (Base64.decode bytes).mapError .encoding
  let (cs, whole) := Utf8.decode payload
  (Wire.decoder.decodeChars cs whole).mapError .payload

/-- The boundary of a token (`decode_cursor`); blanks around the token do not count. -/
def ofToken (token : String) : Except TokenError Boundary :=
  let bytes := Utf8.encode (trimBlanks token.toList)
  if bytes = [] then .error .empty
  else if maxTokenLength < bytes.length then .error (.tooLong bytes.length maxTokenLength)
  else wireOfBytes bytes >>= ofWire

end Boundary

end Keyset
