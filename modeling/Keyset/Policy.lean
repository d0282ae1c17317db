import Keyset.Json.Basic
import Keyset.Json.Record

/-!
# Pagination policies

Defaults and greatest values for the limit of a cursor page and the size of an offset page. What a client asks beyond
them is refused, never adjusted. A policy is in force only if it is valid: every bound is positive and no default
exceeds its maximum.
-/

namespace Keyset

/-- The bounds of a policy, by name. -/
inductive Bound where
  | defaultLimit
  | maxLimit
  | defaultPageSize
  | maxPageSize
  deriving DecidableEq

/-- The name of a bound, as it stands in a document. -/
def Bound.name : Bound → String
  | .defaultLimit => "default_limit"
  | .maxLimit => "max_limit"
  | .defaultPageSize => "default_page_size"
  | .maxPageSize => "max_page_size"

/-- Why a policy is not accepted. -/
inductive PolicyError where
  | zeroBound (bound : Bound)
  | defaultExceedsMaximum (bound : Bound) (value max : UInt32)
  | malformed (fault : Json.Fault)
  deriving DecidableEq

/-- The wording of an error. -/
def PolicyError.message : PolicyError → String
  | .zeroBound bound => "pagination policy field '" ++ bound.name ++ "' must be at least 1"
  | .defaultExceedsMaximum bound value max =>
    "pagination policy default '" ++ bound.name ++ s!"' ({value}) exceeds its maximum ({max})"
  | .malformed fault => "malformed pagination policy: " ++ fault.message

/-- Defaults and inclusive maxima (`PaginationPolicy`). -/
structure Policy where
  defaultLimit : UInt32
  maxLimit : UInt32
  defaultPageSize : UInt32
  maxPageSize : UInt32
  deriving DecidableEq

namespace Policy

/-- The policy of a definition that names none. -/
def standard : Policy :=
  ⟨30, 128, 30, 128⟩

/-- Every bound is positive, and no default exceeds its maximum. -/
def IsValid (p : Policy) : Prop :=
  (1 ≤ p.defaultLimit ∧ p.defaultLimit ≤ p.maxLimit) ∧
    (1 ≤ p.defaultPageSize ∧ p.defaultPageSize ≤ p.maxPageSize)

/-- Validity is decided by comparison. -/
instance (p : Policy) : Decidable p.IsValid :=
  inferInstanceAs (Decidable (_ ∧ _))

/-- The first thing that is wrong with a policy: zeros first, maxima before defaults, then defaults too large. -/
def fault? (p : Policy) : Option PolicyError :=
  if p.maxLimit = 0 then some (.zeroBound .maxLimit)
  else if p.maxPageSize = 0 then some (.zeroBound .maxPageSize)
  else if p.defaultLimit = 0 then some (.zeroBound .defaultLimit)
  else if p.defaultPageSize = 0 then some (.zeroBound .defaultPageSize)
  else if p.maxLimit < p.defaultLimit then some (.defaultExceedsMaximum .defaultLimit p.defaultLimit p.maxLimit)
  else if p.maxPageSize < p.defaultPageSize then
    some (.defaultExceedsMaximum .defaultPageSize p.defaultPageSize p.maxPageSize)
  else none

/-- Nothing is wrong with a policy exactly when it is valid. -/
theorem fault?_eq_none_iff {p : Policy} : p.fault? = none ↔ p.IsValid := by
  simp only [fault?, IsValid, UInt32.le_iff_toNat_le, UInt32.lt_iff_toNat_lt, ← UInt32.toNat_inj]
  simp only [UInt32.toNat_zero, UInt32.toNat_one]
  grind

/-- Refuses a policy that is not valid (`validate`). -/
def check (p : Policy) : Except PolicyError Policy :=
  match p.fault? with
  | some fault => .error fault
  | none => .ok p

/-- The document of a policy, which names every bound. -/
def toJson (p : Policy) : Json :=
  .object [("default_limit", .number p.defaultLimit.toNat), ("max_limit", .number p.maxLimit.toNat),
    ("default_page_size", .number p.defaultPageSize.toNat), ("max_page_size", .number p.maxPageSize.toNat)]

/-- The fields of a policy document. -/
def fields : List (Json.Field Policy) :=
  [.of "default_limit" .defaulted .uint32 fun n p => { p with defaultLimit := n },
    .of "max_limit" .defaulted .uint32 fun n p => { p with maxLimit := n },
    .of "default_page_size" .defaulted .uint32 fun n p => { p with defaultPageSize := n },
    .of "max_page_size" .defaulted .uint32 fun n p => { p with maxPageSize := n }]

/-- The policy in a document; bounds that it does not name are those of the standard policy (`from_json`). -/
def ofJson (text : String) : Except PolicyError Policy := do
  let policy ← ((Json.Decoder.record fields .refused standard).decodeText text).mapError .malformed
  policy.check

end Policy

end Keyset
