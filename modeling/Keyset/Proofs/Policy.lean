import Keyset.Proofs.Json.Grammar
import Keyset.Proofs.Json.Record
import Keyset.Proofs.Listing
import Keyset.Proofs.Sample

/-!
# Policies from documents

A document names some bounds, in any order; the others are those of the standard policy (`Policy.ofJson_of_isSpelled`). What is so read
is the policy in force from then on, unless something is wrong with it (`Policy.faults`): then the first fault is told, and the
definition stays as it was (`Definition.withDocuments_eq`).
-/

namespace Keyset

open Json

/-! ## Partial documents -/

/-- The member that gives a bound its value. -/
def Bound.member (bound : Bound) (n : UInt32) : Member :=
  (some bound.name, .number (.integer n.toNat))

namespace Policy

/-- The policy with one bound replaced. -/
def withBound (p : Policy) (bound : Bound) (n : UInt32) : Policy :=
  match bound with
  | .defaultLimit => { p with defaultLimit := n }
  | .maxLimit => { p with maxLimit := n }
  | .defaultPageSize => { p with defaultPageSize := n }
  | .maxPageSize => { p with maxPageSize := n }

/-- The policy with the bounds replaced that are named. -/
def overridden (p : Policy) (named : List (Bound × UInt32)) : Policy where
  defaultLimit := (named.lookup .defaultLimit).getD p.defaultLimit
  maxLimit := (named.lookup .maxLimit).getD p.maxLimit
  defaultPageSize := (named.lookup .defaultPageSize).getD p.defaultPageSize
  maxPageSize := (named.lookup .maxPageSize).getD p.maxPageSize

/-- Bounds are replaced one after the other, if none is named twice. -/
theorem overridden_withBound {bound : Bound} {named : List (Bound × UInt32)} (h : bound ∉ named.map Prod.fst) (p : Policy)
    (n : UInt32) : (p.withBound bound n).overridden named = p.overridden ((bound, n) :: named) := by
  have hnone : named.lookup bound = none := by
    rw [List.lookup_eq_none_iff]
    intro pair hpair
    rw [bne_iff_ne]
    rintro rfl
    exact h (List.mem_map_of_mem hpair)
  cases bound <;> simp only [overridden, withBound, List.lookup_cons, hnone] <;> rfl

/-- The field of a bound replaces it. -/
theorem exists_field (bound : Bound) (n : UInt32) :
    ∃ field, fields.find? (·.name = bound.name) = some field ∧
      field.set (.number (.integer n.toNat)) = .ok fun p => p.withBound bound n := by
  have hword : Decoder.uint32 (.number (.integer n.toNat)) = .ok n := by
    have hlt := n.toNat_lt
    rw [Decoder.uint32, Decoder.integer, if_pos (by omega), Except.map, Int.toNat_natCast, UInt32.ofNat_toNat]
  cases bound with
  | defaultLimit => exact ⟨_, rfl, Field.set_of_eq_ok_iff.2 ⟨n, hword, rfl⟩⟩
  | maxLimit => exact ⟨_, rfl, Field.set_of_eq_ok_iff.2 ⟨n, hword, rfl⟩⟩
  | defaultPageSize => exact ⟨_, rfl, Field.set_of_eq_ok_iff.2 ⟨n, hword, rfl⟩⟩
  | maxPageSize => exact ⟨_, rfl, Field.set_of_eq_ok_iff.2 ⟨n, hword, rfl⟩⟩

/-- Members that name bounds, none of them twice, replace these. -/
theorem exists_taken {named : List (Bound × UInt32)} (hnodup : (named.map Prod.fst).Nodup) {seen : List String}
    (hseen : ∀ pair ∈ named, pair.1.name ∉ seen) (p : Policy) :
    ∃ read, Decoder.Taken fields .refused seen (named.map fun (bound, n) => bound.member n) p read (p.overridden named) := by
  induction named generalizing seen p with
  | nil => exact ⟨seen, .nil seen p⟩
  | cons pair named ih =>
    obtain ⟨bound, n⟩ := pair
    rw [List.map_cons, List.nodup_cons] at hnodup
    obtain ⟨hbound, hnodup⟩ := hnodup
    obtain ⟨hnew, hseen⟩ := List.forall_mem_cons.1 hseen
    have hothers : ∀ pair ∈ named, pair.1.name ∉ bound.name :: seen := by
      intro pair hpair hname
      rcases List.mem_cons.1 hname with hname | hname
      · have heq : pair.1 = bound := by
          revert hname
          cases pair.1 <;> cases bound <;> decide
        exact hbound (List.mem_map.2 ⟨pair, hpair, heq⟩)
      · exact hseen pair hpair hname
    obtain ⟨field, hfind, hset⟩ := exists_field bound n
    obtain ⟨read, htaken⟩ := ih hnodup hothers (p.withBound bound n)
    rw [overridden_withBound hbound] at htaken
    exact ⟨read, .field hfind hnew hset htaken⟩

/-- A text that names some bounds is read as the standard policy with these replaced, which is then checked. -/
theorem ofJson_of_isSpelled {named : List (Bound × UInt32)} (hnodup : (named.map Prod.fst).Nodup) {text : String}
    (htext : (Reading.object (named.map fun (bound, n) => bound.member n) .closed).IsSpelled text.toList) :
    ofJson text = (standard.overridden named).check := by
  have hseen : ∀ pair ∈ named, pair.1.name ∉ [] := by
    intro pair _ hname
    cases hname
  obtain ⟨read, htaken⟩ := exists_taken hnodup hseen standard
  have hmissing : Decoder.missing? fields read = none := by
    simp [Decoder.missing?, fields, Field.of]
  have hobject := Decoder.object_eq_ok_iff.2 ⟨rfl, read, htaken, hmissing⟩
  rw [ofJson, Decoder.decodeText_of_isSpelled _ htext, Decoder.record, hobject]
  rfl

/-! ## Faults -/

/-- All that is wrong with a policy, in the order in which it is looked at. -/
def faults (p : Policy) : List PolicyError :=
  (if p.maxLimit = 0 then [.zeroBound .maxLimit] else []) ++
  (if p.maxPageSize = 0 then [.zeroBound .maxPageSize] else []) ++
  (if p.defaultLimit = 0 then [.zeroBound .defaultLimit] else []) ++
  (if p.defaultPageSize = 0 then [.zeroBound .defaultPageSize] else []) ++
  (if p.maxLimit < p.defaultLimit then [.defaultExceedsMaximum .defaultLimit p.defaultLimit p.maxLimit] else []) ++
  (if p.maxPageSize < p.defaultPageSize then [.defaultExceedsMaximum .defaultPageSize p.defaultPageSize p.maxPageSize] else [])

theorem head?_faults (p : Policy) : p.faults.head? = p.fault? := by
  simp only [faults, fault?]
  grind

/-- A valid policy passes the check. -/
theorem check_eq_ok_iff {p q : Policy} : p.check = .ok q ↔ q = p ∧ p.IsValid := by
  rw [check, ← fault?_eq_none_iff]
  cases hfault : p.fault? with
  | none => simp [eq_comm]
  | some fault => simp

/-- Any other policy is refused for the first thing that is wrong with it. -/
theorem check_eq_error_iff {p : Policy} {fault : PolicyError} : p.check = .error fault ↔ p.faults.head? = some fault := by
  rw [check, head?_faults]
  cases p.fault? with
  | none => simp
  | some first => simp

/-- A policy that is read of a document is valid. -/
theorem isValid_of_ofJson {text : String} {p : Policy} (h : ofJson text = .ok p) : p.IsValid := by
  obtain ⟨read, -, hcheck⟩ := Except.exists_of_bind_eq_ok h
  obtain ⟨rfl, hvalid⟩ := check_eq_ok_iff.1 hcheck
  exact hvalid

end Policy

/-! ## Definitions -/

namespace Definition

variable (d : Definition κ)

/-- The definition after a document of a policy was put to it; one that is refused leaves it as it was. -/
def withDocument (text : String) : Definition κ :=
  (Policy.ofJson text >>= d.withPolicy).toOption.getD d

/-- The definition after some documents were put to it, one by one. -/
def withDocuments (texts : List String) : Definition κ :=
  texts.foldl withDocument d

/-- A document puts the policy in force that is read of it, if one is. -/
theorem policy_withDocument (text : String) : (d.withDocument text).policy = (Policy.ofJson text).toOption.getD d.policy := by
  rw [withDocument]
  cases hpolicy : Policy.ofJson text with
  | error fault => rfl
  | ok policy => exact (policy_withPolicy d policy).trans (if_pos (Policy.isValid_of_ofJson hpolicy))

/-- A document changes nothing else. -/
theorem withDocument_frame (text : String) :
    (d.withDocument text).table = d.table ∧ (d.withDocument text).identity = d.identity ∧
      (d.withDocument text).defaultSort = d.defaultSort := by
  rw [withDocument]
  cases Policy.ofJson text with
  | error fault => exact ⟨rfl, rfl, rfl⟩
  | ok policy => exact d.withPolicy_frame policy

/-- After some documents the policy is the last one that was read of them, and all else is as it was. -/
theorem withDocuments_eq (texts : List String) :
    (d.withDocuments texts).policy = (texts.filterMap fun text => (Policy.ofJson text).toOption).getLast?.getD d.policy ∧
      (d.withDocuments texts).table = d.table ∧ (d.withDocuments texts).identity = d.identity ∧
      (d.withDocuments texts).defaultSort = d.defaultSort := by
  unfold withDocuments
  induction texts generalizing d with
  | nil => exact ⟨rfl, rfl, rfl, rfl⟩
  | cons text texts ih =>
    obtain ⟨htable, hidentity, hsort⟩ := d.withDocument_frame text
    have hrest := ih (d.withDocument text)
    rw [policy_withDocument, htable, hidentity, hsort] at hrest
    refine ⟨hrest.1.trans ?_, hrest.2⟩
    rw [List.filterMap_cons]
    cases (Policy.ofJson text).toOption with
    | none => rfl
    | some policy =>
      rw [List.getLast?_cons]
      rfl

end Definition

/-- A document that names some bounds is read as the standard policy with these replaced, if that is valid, and is else refused for the
first fault of that policy. After any documents were put to a new definition the last policy that was read is in force, or the standard
one when none was; it is valid, and nothing else of the definition has changed. -/
theorem Policy.ofJson_overrides :
    (∀ (named : List (Bound × UInt32)) (text : String), (named.map Prod.fst).Nodup →
      (Reading.object (named.map fun (bound, n) => bound.member n) .closed).IsSpelled text.toList →
      (∀ policy, ofJson text = .ok policy ↔ policy = standard.overridden named ∧ (standard.overridden named).IsValid) ∧
        ∀ fault, ofJson text = .error fault ↔ (standard.overridden named).faults.head? = some fault) ∧
    ∀ (κ : Type) (table : SortTable κ) (identity : Column) (defaultSort : SortBy κ) (texts : List String),
      let d := (Definition.fresh table identity defaultSort).withDocuments texts
      d.policy = (texts.filterMap fun text => (ofJson text).toOption).getLast?.getD .standard ∧ d.policy.IsValid ∧
        d.table = table ∧ d.identity = identity ∧ d.defaultSort = defaultSort := by
  constructor
  · intro named text hnodup htext
    rw [ofJson_of_isSpelled hnodup htext]
    exact ⟨fun policy => check_eq_ok_iff, fun fault => check_eq_error_iff⟩
  · intro κ table identity defaultSort texts d
    obtain ⟨hpolicy, hothers⟩ := (Definition.fresh table identity defaultSort).withDocuments_eq texts
    exact ⟨hpolicy, d.policy_isValid, hothers⟩

/-- A maximum alone that is below the standard default is refused. It leaves the policy as it is that a document before it, which names
a default too, has put in force. -/
theorem Policy.ofJson_overrides_limits :
    ofJson "\x7b\"max_limit\":20\x7d" = .error (.defaultExceedsMaximum .defaultLimit 30 20) ∧
      ((Definition.fresh (Sample.books true).table ⟨"isbn"⟩ ⟨true, .asc⟩).withDocuments
        ["\x7b\"max_limit\":50,\"default_limit\":10\x7d", "\x7b\"max_limit\":20\x7d"]).policy = ⟨10, 50, 30, 128⟩ := by
  have hboth := ofJson_overrides.1 [(.maxLimit, 50), (.defaultLimit, 10)] "\x7b\"max_limit\":50,\"default_limit\":10\x7d" (by decide)
    (Reading.ofChars_eq_iff.1 (by rfl))
  have hone := ofJson_overrides.1 [(.maxLimit, 20)] "\x7b\"max_limit\":20\x7d" (by decide) (Reading.ofChars_eq_iff.1 (by rfl))
  have hfirst := (hboth.1 ⟨10, 50, 30, 128⟩).2 (by decide)
  have hsecond := (hone.2 (.defaultExceedsMaximum .defaultLimit 30 20)).2 (by decide)
  refine ⟨hsecond, ?_⟩
  rw [(ofJson_overrides.2 Bool (Sample.books true).table ⟨"isbn"⟩ ⟨true, .asc⟩ _).1, List.filterMap_cons, hfirst,
    List.filterMap_cons, hsecond]
  rfl

end Keyset
