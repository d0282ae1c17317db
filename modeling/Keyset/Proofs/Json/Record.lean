import Keyset.Json.Record
import Mathlib.Data.List.Forall2
import Mathlib.Data.List.Pairwise

/-!
# Members of records in any order

Reading an object into a record is reading one member after the other (`Decoder.Taken`). When the fields of the record do not get in
each other's way (`Field.Commutes`), the order of the members makes no difference to what is read (`Decoder.object_of_perm`). Nor do
more members that name no field, where these are ignored, nor other values for members whose fields read the same of them.
-/

namespace Keyset.Json

/-! ## Fields -/

/-- Two fields may be set in either order. -/
def Field.Commutes (first second : Field σ) : Prop :=
  ∀ value other change next, first.set value = .ok change → second.set other = .ok next →
    ∀ record, next (change record) = change (next record)

/-- What a field stores is what its decoder reads. -/
theorem Field.set_of_eq_ok_iff {name : String} {presence : Presence} {decode : Decoder α} {put : α → σ → σ} {value : Reading}
    {change : σ → σ} : (Field.of name presence decode put).set value = .ok change ↔ ∃ a, decode value = .ok a ∧ put a = change := by
  rw [Field.of]
  cases hdecode : decode value with
  | error fault => simp [hdecode, Except.map]
  | ok a => simp [hdecode, Except.map]

/-- Fields may be set in either order when what they store may be. -/
theorem Field.commutes_of {name other : String} {presence mandate : Presence} {decode : Decoder α} {read : Decoder β} {put : α → σ → σ}
    {store : β → σ → σ} (h : ∀ a b record, store b (put a record) = put a (store b record)) :
    (Field.of name presence decode put).Commutes (Field.of other mandate read store) := by
  intro value given change next hchange hnext record
  obtain ⟨a, -, rfl⟩ := set_of_eq_ok_iff.1 hchange
  obtain ⟨b, -, rfl⟩ := set_of_eq_ok_iff.1 hnext
  exact h a b record

/-- The order of two fields is no part of that. -/
instance : Std.Symm (Field.Commutes (σ := σ)) where
  symm _ _ h value other change next hchange hnext record := (h other value next change hnext hchange record).symm

namespace Decoder

/-- Of two values that are there the same is read when they may be missing as when they may not. -/
theorem optional_of_ne_null {decode : Decoder α} {value other : Reading} (hvalue : value ≠ .null) (hother : other ≠ .null)
    (h : ∀ a, decode value = .ok a → decode other = .ok a) {a : Option α} (ha : optional decode value = .ok a) :
    optional decode other = .ok a := by
  rw [optional] at ha ⊢
  · cases hdecode : decode value with
    | error fault =>
      rw [hdecode] at ha
      cases ha
    | ok read =>
      rw [hdecode] at ha
      rw [h read hdecode]
      exact ha
  · exact hother
  · exact hvalue

variable {declared : List (Field σ)} {extras : Extras}

/-! ## Members -/

/-- Members that are read one after the other take a record to another; the names of their fields are gathered. -/
inductive Taken (declared : List (Field σ)) (extras : Extras) : List String → List Member → σ → List String → σ → Prop where
  | nil (seen : List String) (record : σ) : Taken declared extras seen [] record seen record
  | field {seen read : List String} {name : String} {value : Reading} {rest : List Member} {record result : σ} {field : Field σ}
      {change : σ → σ} (find : declared.find? (·.name = name) = some field) (new : name ∉ seen) (set : field.set value = .ok change)
      (taken : Taken declared extras (name :: seen) rest (change record) read result) :
      Taken declared extras seen ((some name, value) :: rest) record read result
  | extra {seen read : List String} {name : String} {value : Reading} {rest : List Member} {record result : σ}
      (find : declared.find? (·.name = name) = none) (ignored : extras = .ignored)
      (taken : Taken declared extras seen rest record read result) :
      Taken declared extras seen ((some name, value) :: rest) record read result

/-- What is found by a name is a field of that name. -/
theorem of_find?_name {name : String} {field : Field σ} (h : declared.find? (·.name = name) = some field) :
    field ∈ declared ∧ field.name = name :=
  ⟨List.mem_of_find?_eq_some h, by simpa using List.find?_some h⟩

/-- Members are read to a record exactly when they take the one before to it. -/
theorem members_eq_ok_iff {held : List Member} {seen read : List String} {record result : σ} :
    members declared extras seen held record = .ok (read, result) ↔ Taken declared extras seen held record read result := by
  constructor
  · intro h
    induction held generalizing seen record with
    | nil =>
      cases h
      exact .nil _ _
    | cons member held ih =>
      obtain ⟨key, value⟩ := member
      cases key with
      | none => cases h
      | some name =>
        rw [members] at h
        cases hfind : declared.find? (·.name = name) with
        | some field =>
          simp only [hfind] at h
          by_cases hseen : name ∈ seen
          · rw [if_pos hseen] at h
            cases h
          · rw [if_neg hseen] at h
            cases hset : field.set value with
            | error fault =>
              rw [hset] at h
              cases h
            | ok change =>
              rw [hset] at h
              exact .field hfind hseen hset (ih h)
        | none =>
          simp only [hfind] at h
          cases extras with
          | refused => cases h
          | ignored => exact .extra hfind rfl (ih h)
  · intro h
    induction h with
    | nil => rfl
    | field find new set taken ih =>
      rw [members, find]
      simp only [if_neg new, set]
      exact ih
    | extra find ignored taken ih =>
      cases ignored
      rw [members, find]
      exact ih

/-- It makes no difference in which order fields were read before. -/
theorem Taken.of_seen_perm {held : List Member} {seen others read : List String} {record result : σ}
    (h : Taken declared extras seen held record read result) (hseen : seen.Perm others) :
    ∃ after, Taken declared extras others held record after result ∧ read.Perm after := by
  induction h generalizing others with
  | nil seen record => exact ⟨others, .nil others record, hseen⟩
  | @field seen read name value rest record result field change find new set taken ih =>
    obtain ⟨after, htaken, hperm⟩ := ih (hseen.cons name)
    exact ⟨after, .field find (fun hmem => new (hseen.mem_iff.2 hmem)) set htaken, hperm⟩
  | extra find ignored taken ih =>
    obtain ⟨after, htaken, hperm⟩ := ih hseen
    exact ⟨after, .extra find ignored htaken, hperm⟩

/-- Two members that come first may change places. -/
theorem Taken.swap (hcommutes : declared.Pairwise Field.Commutes) {first second : Member} {rest : List Member} {seen read : List String}
    {record result : σ} (h : Taken declared extras seen (first :: second :: rest) record read result) :
    ∃ after, Taken declared extras seen (second :: first :: rest) record after result ∧ read.Perm after := by
  cases h with
  | @field _ _ name value _ _ _ field change find new set taken =>
    cases taken with
    | @field _ _ otherName otherValue _ _ _ other next findNext newNext setNext taken =>
      obtain ⟨hmem, hfield⟩ := of_find?_name find
      obtain ⟨hmemNext, hother⟩ := of_find?_name findNext
      have hname : otherName ≠ name := fun heq => newNext (heq ▸ List.mem_cons_self)
      have hfields : field ≠ other := by
        rintro rfl
        exact hname (hother.symm.trans hfield)
      have hcommute := hcommutes.forall hmem hmemNext hfields value otherValue change next set setNext record
      rw [hcommute] at taken
      obtain ⟨after, htaken, hperm⟩ := taken.of_seen_perm (List.Perm.swap name otherName seen)
      refine ⟨after, .field findNext (fun hmem => newNext (List.mem_cons_of_mem name hmem)) setNext (.field find ?_ set htaken), hperm⟩
      intro hmem
      rcases List.mem_cons.1 hmem with heq | hmem
      · exact hname heq.symm
      · exact new hmem
    | extra findNext ignored taken => exact ⟨read, .extra findNext ignored (.field find new set taken), .refl read⟩
  | extra find ignored taken =>
    cases taken with
    | field findNext newNext setNext taken => exact ⟨read, .field findNext newNext setNext (.extra find ignored taken), .refl read⟩
    | extra findNext ignoredNext taken => exact ⟨read, .extra findNext ignoredNext (.extra find ignored taken), .refl read⟩

/-- The order of members makes no difference. -/
theorem Taken.of_perm (hcommutes : declared.Pairwise Field.Commutes) {held others : List Member} (hperm : held.Perm others)
    {seen read : List String} {record result : σ} (h : Taken declared extras seen held record read result) :
    ∃ after, Taken declared extras seen others record after result ∧ read.Perm after := by
  induction hperm generalizing seen read record with
  | nil => exact ⟨read, h, .refl read⟩
  | cons member _ ih =>
    cases h with
    | field find new set taken =>
      obtain ⟨after, htaken, hafter⟩ := ih taken
      exact ⟨after, .field find new set htaken, hafter⟩
    | extra find ignored taken =>
      obtain ⟨after, htaken, hafter⟩ := ih taken
      exact ⟨after, .extra find ignored htaken, hafter⟩
  | swap second first rest => exact h.swap hcommutes
  | trans _ _ ihfirst ihsecond =>
    obtain ⟨middle, hmiddle, hfirst⟩ := ihfirst h
    obtain ⟨after, htaken, hsecond⟩ := ihsecond hmiddle
    exact ⟨after, htaken, hfirst.trans hsecond⟩

/-- A member has a key that is none of some names. -/
def IsForeign (names : List String) (member : Member) : Prop :=
  ∃ name, member.1 = some name ∧ name ∉ names

/-- Members that name no field may follow. -/
theorem Taken.append_foreign {held added : List Member} {seen read : List String} {record result : σ}
    (h : Taken declared .ignored seen held record read result) (hadded : ∀ member ∈ added, IsForeign (declared.map Field.name) member) :
    Taken declared .ignored seen (held ++ added) record read result := by
  induction h with
  | nil seen record =>
    rw [List.nil_append]
    induction added with
    | nil => exact .nil seen record
    | cons member added ih =>
      obtain ⟨hmember, hadded⟩ := List.forall_mem_cons.1 hadded
      obtain ⟨name, hkey, hname⟩ := hmember
      have hmember : member = (some name, member.2) := Prod.ext hkey rfl
      have hfind : declared.find? (·.name = name) = none := by
        rw [List.find?_eq_none]
        intro field hfield heq
        exact hname (List.mem_map.2 ⟨field, hfield, of_decide_eq_true heq⟩)
      rw [hmember]
      exact .extra hfind rfl (ih hadded)
  | field find new set taken ih => exact .field find new set ih
  | extra find ignored taken ih => exact .extra find ignored ih

/-- A member may be another one with the same key if its field reads the same of both values. -/
def ReadsAs (declared : List (Field σ)) (member other : Member) : Prop :=
  other.1 = member.1 ∧ ∀ field ∈ declared, member.1 = some field.name → ∀ change, field.set member.2 = .ok change →
    field.set other.2 = .ok change

/-- Members may be others of which the same is read. -/
theorem Taken.of_readsAs {held others : List Member} (hothers : List.Forall₂ (ReadsAs declared) held others) {seen read : List String}
    {record result : σ} (h : Taken declared extras seen held record read result) :
    Taken declared extras seen others record read result := by
  induction h generalizing others with
  | nil seen record =>
    cases hothers
    exact .nil seen record
  | @field seen read name value rest record result field change find new set taken ih =>
    cases hothers with
    | @cons _ other _ others hother hothers =>
      obtain ⟨hkey, hreads⟩ := hother
      have hmember : other = (some name, other.2) := Prod.ext hkey rfl
      obtain ⟨hmem, hname⟩ := of_find?_name find
      rw [hmember]
      exact .field find new (hreads field hmem (congrArg some hname.symm) change set) (ih hothers)
  | @extra seen read name value rest record result find ignored taken ih =>
    cases hothers with
    | @cons _ other _ others hother hothers =>
      have hmember : other = (some name, other.2) := Prod.ext hother.1 rfl
      rw [hmember]
      exact .extra find ignored (ih hothers)

/-! ## Objects -/

/-- An object is read to a record when its members are, no required field is missing and the object is closed. -/
theorem object_eq_ok_iff {blank result : σ} {held : List Member} {ending : Ending} :
    object declared extras blank held ending = .ok result ↔
      ending = .closed ∧ ∃ read, Taken declared extras [] held blank read result ∧ missing? declared read = none := by
  constructor
  · intro h
    rw [object] at h
    cases hmembers : members declared extras [] held blank with
    | error fault =>
      rw [hmembers] at h
      cases h
    | ok taken =>
      obtain ⟨read, record⟩ := taken
      cases ending with
      | cut =>
        rw [hmembers] at h
        cases h
      | closed =>
        cases hmissing : missing? declared read with
        | some fault =>
          rw [hmembers] at h
          simp only [bind, Except.bind, hmissing] at h
          cases h
        | none =>
          rw [hmembers] at h
          simp only [bind, Except.bind, hmissing] at h
          cases h
          exact ⟨rfl, read, members_eq_ok_iff.1 hmembers, hmissing⟩
  · rintro ⟨rfl, read, htaken, hmissing⟩
    rw [object, members_eq_ok_iff.2 htaken]
    simp only [bind, Except.bind, hmissing]
    rfl

/-- Whether a field is missing depends on which fields were read. -/
theorem missing?_eq_of_perm {read others : List String} (h : read.Perm others) : missing? declared read = missing? declared others := by
  simp only [missing?, h.mem_iff]

/-- The order of the members of an object makes no difference. -/
theorem object_of_perm (hcommutes : declared.Pairwise Field.Commutes) {held others : List Member} (hperm : held.Perm others)
    {blank result : σ} {ending : Ending} (h : object declared extras blank held ending = .ok result) :
    object declared extras blank others ending = .ok result := by
  obtain ⟨hending, read, htaken, hmissing⟩ := object_eq_ok_iff.1 h
  obtain ⟨after, hafter, hread⟩ := htaken.of_perm hcommutes hperm
  exact object_eq_ok_iff.2 ⟨hending, after, hafter, (missing?_eq_of_perm hread).symm.trans hmissing⟩

/-- Members in any order, with more members among them. -/
def Extends (adds : Member → Prop) (held others : List Member) : Prop :=
  ∃ added, (∀ member ∈ added, adds member) ∧ others.Perm (held ++ added)

/-- Members that name no field make no difference to a record where they are ignored. -/
theorem object_of_extends (hcommutes : declared.Pairwise Field.Commutes) {held others : List Member}
    (hothers : Extends (IsForeign (declared.map Field.name)) held others) {blank result : σ} {ending : Ending}
    (h : object declared .ignored blank held ending = .ok result) : object declared .ignored blank others ending = .ok result := by
  obtain ⟨added, hadded, hperm⟩ := hothers
  obtain ⟨hending, read, htaken, hmissing⟩ := object_eq_ok_iff.1 h
  exact object_of_perm hcommutes hperm.symm (object_eq_ok_iff.2 ⟨hending, read, htaken.append_foreign hadded, hmissing⟩)

/-- Other values of which the same is read make no difference to a record. -/
theorem object_of_readsAs {held others : List Member} (hothers : List.Forall₂ (ReadsAs declared) held others) {blank result : σ}
    {ending : Ending} (h : object declared extras blank held ending = .ok result) :
    object declared extras blank others ending = .ok result := by
  obtain ⟨hending, read, htaken, hmissing⟩ := object_eq_ok_iff.1 h
  exact object_eq_ok_iff.2 ⟨hending, read, htaken.of_readsAs hothers, hmissing⟩

end Decoder

end Keyset.Json
