import Keyset.Json.Decoder

/-!
# Records

A record is written as an object, or as an array of its fields in declared order. A key may stand only once; a field
that is missing is a fault unless the record can do without it.
-/

namespace Keyset.Json

/-- Whether a field may be missing. -/
inductive Presence where
  | required
  /-- An object may do without the key, an array holds null in its place. -/
  | nullable
  /-- The record has a value of its own for the field. -/
  | defaulted
  deriving DecidableEq

/-- A field of a record: its name, and what its value does to the record. -/
structure Field (σ : Type) where
  name : String
  presence : Presence
  set : Decoder (σ → σ)

/-- A field that `put` stores in the record. -/
def Field.of (name : String) (presence : Presence) (decode : Decoder α) (put : α → σ → σ) : Field σ :=
  ⟨name, presence, fun value => (decode value).map put⟩

/-- Whether keys that name no field are faults. -/
inductive Extras where
  | refused
  | ignored
  deriving DecidableEq

namespace Decoder

/-- Reads members in order into a record; `seen` are the fields that were read before. -/
def members (fields : List (Field σ)) (extras : Extras) :
    (seen : List String) → List Member → σ → Except Fault (List String × σ)
  | seen, [], record => .ok (seen, record)
  | _, (none, _) :: _, _ => .error .malformed
  | seen, (some key, value) :: rest, record =>
    match fields.find? (·.name = key) with
    | some field =>
      if key ∈ seen then .error (.duplicateField key)
      else do
        let change ← field.set value
        members fields extras (key :: seen) rest (change record)
    | none =>
      if extras = .refused then .error (.unknownField key (fields.map Field.name))
      else members fields extras seen rest record

/-- The first required field that was not read. -/
def missing? (fields : List (Field σ)) (seen : List String) : Option Fault :=
  (fields.find? fun field => field.presence = .required ∧ field.name ∉ seen).map fun field => .missingField field.name

/-- Reads items into the fields in declared order. Fields with a value of their own may be missing at the end;
`surplus` is the fault of an item that has no field. -/
def fields (surplus : Fault) : List (Field σ) → List Reading → Ending → σ → Except Fault σ
  | [], items, ending, record =>
    if ending ≠ .closed then .error .malformed else if items.isEmpty then .ok record else .error surplus
  | field :: rest, item :: items, ending, record => do
    let change ← field.set item
    fields surplus rest items ending (change record)
  | field :: rest, [], ending, record =>
    if ending ≠ .closed then .error .malformed
    else if (field :: rest).all (·.presence = .defaulted) then .ok record
    else .error .invalidLength

/-- Reads an object into a record that starts as `blank`. -/
def object (declared : List (Field σ)) (extras : Extras) (blank : σ) (held : List Member) (ending : Ending) :
    Except Fault σ := do
  let (seen, record) ← members declared extras [] held blank
  if ending ≠ .closed then throw .malformed
  match missing? declared seen with
  | some fault => throw fault
  | none => return record

/-- A record, from an object or an array. Every required field is read, so its value in `blank` is never seen. -/
def record (declared : List (Field σ)) (extras : Extras) (blank : σ) : Decoder σ
  | .object held ending => object declared extras blank held ending
  | .array items ending => fields .malformed declared items ending blank
  | other => .error other.typeFault

end Decoder

end Keyset.Json
