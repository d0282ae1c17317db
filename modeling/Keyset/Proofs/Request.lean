import Keyset.Proofs.Attempt
import Keyset.Proofs.Documents
import Keyset.Proofs.Json.Record

/-!
# Requests whose documents are rearranged

The members of a request, of its paging and of its sorts may stand in any order, and others may stand among them
(`Request.Rearranged`): the same is read (`Request.ofJson_rearranged`). For the paging this needs that the mode is found wherever it
stands (`Paging.findMode_eq_ok_iff`) and that what stands there besides can be kept until it is.
-/

namespace Keyset

open Json

namespace Json.Reading

/-! ## Values that can be kept -/

/-- A value that has no more than some number of containers inside each other and that a paging keeps: all of them are closed, in its
keys and texts surrogates are paired, and no number is beyond the largest of binary64. A lone surrogate has a spelling, too, but inside
the paging it is refused as a fault of the syntax; in an unknown member of the root, which is not kept, it is ignored. -/
inductive NestsWithin : Nat → Reading → Prop where
  | null (depth : Nat) : NestsWithin depth .null
  | bool (depth : Nat) (value : Bool) : NestsWithin depth (.bool value)
  | number (depth : Nat) {value : Numeral} (ne_excessive : value ≠ .excessive) : NestsWithin depth (.number value)
  | text (depth : Nat) (value : String) : NestsWithin depth (.text (some value))
  | array {depth : Nat} {items : List Reading} (nests : ∀ item ∈ items, NestsWithin depth item) :
      NestsWithin (depth + 1) (.array items .closed)
  | object {depth : Nat} {members : List Member} (keys : ∀ member ∈ members, member.1.isSome = true)
      (nests : ∀ member ∈ members, NestsWithin depth member.2) : NestsWithin (depth + 1) (.object members .closed)

/-- Items can be kept when each of them can. -/
theorem allKeepable_of_forall {depth : Nat} {items : List Reading} (h : ∀ item ∈ items, item.isKeepable depth = true) :
    allKeepable depth items = true := by
  induction items with
  | nil => rfl
  | cons item items ih =>
    obtain ⟨hitem, hitems⟩ := List.forall_mem_cons.1 h
    rw [allKeepable, hitem, ih hitems]
    rfl

/-- Members can be kept when each of their keys and values can. -/
theorem membersKeepable_of_forall {depth : Nat} {members : List Member} (hkeys : ∀ member ∈ members, member.1.isSome = true)
    (h : ∀ member ∈ members, member.2.isKeepable depth = true) : membersKeepable depth members = true := by
  induction members with
  | nil => rfl
  | cons member members ih =>
    obtain ⟨hkey, hkeys⟩ := List.forall_mem_cons.1 hkeys
    obtain ⟨hmember, hmembers⟩ := List.forall_mem_cons.1 h
    rw [membersKeepable, hkey, hmember, ih hkeys hmembers]
    rfl

/-- What is not nested too deep can be kept. -/
theorem NestsWithin.isKeepable {depth limit : Nat} {value : Reading} (h : value.NestsWithin depth) (hlimit : depth ≤ limit) :
    value.isKeepable limit = true := by
  induction h generalizing limit with
  | null | bool | text => rfl
  | number _ ne_excessive => exact decide_eq_true ne_excessive
  | array nests ih =>
    cases limit with
    | zero => cases hlimit
    | succ limit =>
      rw [Reading.isKeepable, allKeepable_of_forall fun item hitem => ih item hitem (Nat.le_of_succ_le_succ hlimit)]
      rfl
  | object keys nests ih =>
    cases limit with
    | zero => cases hlimit
    | succ limit =>
      rw [Reading.isKeepable, membersKeepable_of_forall keys fun member hmember => ih member hmember (Nat.le_of_succ_le_succ hlimit)]
      rfl

end Json.Reading

/-! ## Sorts -/

namespace NamedSort

/-- A sort whose members may stand in another order. -/
inductive Rearranged : Reading → Reading → Prop where
  | same (value : Reading) : Rearranged value value
  | members {held others : List Member} (perm : held.Perm others) (ending : Ending) :
      Rearranged (.object held ending) (.object others ending)

theorem pairwise_fields : fields.Pairwise Field.Commutes :=
  List.pairwise_pair.2 (Field.commutes_of fun _ _ _ => rfl)

/-- The order of the members of a sort makes no difference. -/
theorem decoder_rearranged {value other : Reading} (h : Rearranged value other) {sort : NamedSort} (hsort : decoder value = .ok sort) :
    decoder other = .ok sort := by
  cases h with
  | same => exact hsort
  | members perm ending => exact Decoder.object_of_perm pairwise_fields perm hsort

/-- Sorts whose members may stand in another order. -/
inductive AllRearranged : Reading → Reading → Prop where
  | same (value : Reading) : AllRearranged value value
  | items {items others : List Reading} (rearranged : List.Forall₂ Rearranged items others) (ending : Ending) :
      AllRearranged (.array items ending) (.array others ending)

/-- The order of the members of sorts makes no difference to a list of them. -/
theorem items_rearranged {items others : List Reading} (h : List.Forall₂ Rearranged items others) {sorts : List NamedSort}
    (hsorts : Decoder.items decoder items = .ok sorts) : Decoder.items decoder others = .ok sorts := by
  induction h generalizing sorts with
  | nil => exact hsorts
  | cons hitem _ ih =>
    rw [Decoder.items] at hsorts
    obtain ⟨sort, hsort, hmore⟩ := Except.exists_of_bind_eq_ok hsorts
    obtain ⟨rest, hrest, hcons⟩ := Except.exists_of_bind_eq_ok hmore
    rw [Decoder.items, decoder_rearranged hitem hsort, ih hrest]
    exact hcons

/-- The order of the members of sorts makes no difference where a list of them may be missing. -/
theorem optional_rearranged {value other : Reading} (h : AllRearranged value other) {sorts : Option (List NamedSort)}
    (hsorts : Decoder.optional (.list decoder) value = .ok sorts) : Decoder.optional (.list decoder) other = .ok sorts := by
  cases h with
  | same => exact hsorts
  | items rearranged ending =>
    refine Decoder.optional_of_ne_null Reading.noConfusion Reading.noConfusion ?_ hsorts
    intro sorts hsorts
    obtain ⟨read, hread, hclosed⟩ := Except.exists_of_bind_eq_ok hsorts
    rw [Decoder.list, items_rearranged rearranged hread]
    exact hclosed

end NamedSort

/-! ## Pagings -/

namespace Paging

/-- The names of the fields of a mode. -/
def Mode.fieldNames : Mode → List String
  | .cursor => ["limit", "cursor"]
  | .offset => ["page", "pageSize"]

/-- A paging with its members in any order, and with members among them that are neither the mode nor a field of it. -/
inductive Rearranged : Reading → Reading → Prop where
  | same (value : Reading) : Rearranged value value
  | members {mode : Mode} {held others : List Member} (mode_mem : (some "mode", .text (some mode.name)) ∈ held)
      (added : Decoder.Extends (fun member => Decoder.IsForeign ("mode" :: mode.fieldNames) member ∧ member.2.NestsWithin 100)
        held others) (ending : Ending) : Rearranged (.object held ending) (.object others ending)

/-- A mode is read of its name. -/
theorem modeDecoder_eq_ok_iff {value : Reading} {mode : Mode} : modeDecoder value = .ok mode ↔ value = .text (some mode.name) := by
  constructor
  · intro h
    obtain ⟨name, hname, hmode⟩ := Except.exists_of_bind_eq_ok h
    have hvalue : value = .text (some name) := by
      unfold Decoder.text at hname
      split at hname
      · cases hname
        rfl
      · cases hname
    subst hvalue
    by_cases hcursor : name = "cursor"
    · subst hcursor
      have hname : Decoder.named [("cursor", Mode.cursor), ("offset", .offset)] "cursor" = .ok .cursor := rfl
      rw [hname] at hmode
      cases hmode
      rfl
    · by_cases hoffset : name = "offset"
      · subst hoffset
        have hname : Decoder.named [("cursor", Mode.cursor), ("offset", .offset)] "offset" = .ok .offset := rfl
        rw [hname] at hmode
        cases hmode
        rfl
      · have hnone : [("cursor", Mode.cursor), ("offset", .offset)].lookup name = none := by
          simp [List.lookup_eq_none_iff, hcursor, hoffset]
        rw [Decoder.named, hnone] at hmode
        cases hmode
  · rintro rfl
    cases mode <;> rfl

/-- A member of a paging can be kept until the mode is known. -/
def IsKept (member : Member) : Prop :=
  member.1.isSome = true ∧ member.2.isKeepable keptDepth = true

/-- One of some members is the mode, and all others can be kept. -/
def HasMode (members : List Member) (mode : Mode) : Prop :=
  members.filter (·.1 = some "mode") = [(some "mode", .text (some mode.name))] ∧
    ∀ member ∈ members, member.1 ≠ some "mode" → IsKept member

/-- Behind the mode no other may come. -/
theorem findMode_some {mode : Mode} {found : Option Mode} {members : List Member} (h : findMode (some mode) members = .ok found) :
    found = some mode ∧ ∀ member ∈ members, member.1 ≠ some "mode" ∧ IsKept member := by
  induction members with
  | nil =>
    cases h
    exact ⟨rfl, fun member hmember => nomatch hmember⟩
  | cons member members ih =>
    obtain ⟨key, value⟩ := member
    rw [findMode] at h
    by_cases hkey : key = some "mode"
    · rw [if_pos hkey] at h
      cases h
    · by_cases hkept : key.isSome = true ∧ value.isKeepable keptDepth = true
      · rw [if_neg hkey, if_pos hkept] at h
        obtain ⟨hfound, hmembers⟩ := ih h
        exact ⟨hfound, List.forall_mem_cons.2 ⟨⟨hkey, hkept⟩, hmembers⟩⟩
      · rw [if_neg hkey, if_neg hkept] at h
        cases h

/-- The mode is found among members that have one. -/
theorem findMode_eq_ok_iff {mode : Mode} {members : List Member} : findMode none members = .ok (some mode) ↔ HasMode members mode := by
  induction members with
  | nil => simp [findMode, HasMode]
  | cons member members ih =>
    obtain ⟨key, value⟩ := member
    rw [findMode, HasMode, List.forall_mem_cons]
    by_cases hkey : key = some "mode"
    · subst hkey
      rw [if_pos rfl, if_neg (by decide), List.filter_cons_of_pos (by simp)]
      constructor
      · intro h
        obtain ⟨found, hfound, hrest⟩ := Except.exists_of_bind_eq_ok h
        obtain ⟨hmode, hothers⟩ := findMode_some hrest
        cases hmode
        rw [modeDecoder_eq_ok_iff.1 hfound]
        have hnone : members.filter (·.1 = some "mode") = [] := by
          rw [List.filter_eq_nil_iff]
          intro member hmember hname
          exact (hothers member hmember).1 (of_decide_eq_true hname)
        rw [hnone]
        exact ⟨rfl, fun hname => absurd rfl hname, fun member hmember _ => (hothers member hmember).2⟩
      · rintro ⟨hfilter, -, hothers⟩
        obtain ⟨hfirst, hnone⟩ := List.cons.inj hfilter
        rw [modeDecoder_eq_ok_iff.2 (congrArg Prod.snd hfirst)]
        refine findMode_of_keepable ?_ (some mode)
        intro member hmember
        have hname : member.1 ≠ some "mode" := by
          intro hname
          exact List.filter_eq_nil_iff.1 hnone member hmember (decide_eq_true hname)
        exact ⟨hname, hothers member hmember hname⟩
    · rw [if_neg hkey, List.filter_cons_of_neg (by simpa using hkey)]
      by_cases hkept : key.isSome = true ∧ value.isKeepable keptDepth = true
      · rw [if_pos hkept, ih, HasMode]
        constructor
        · rintro ⟨hfilter, hothers⟩
          exact ⟨hfilter, fun _ => hkept, hothers⟩
        · rintro ⟨hfilter, -, hothers⟩
          exact ⟨hfilter, hothers⟩
      · rw [if_neg hkept]
        constructor
        · rintro ⟨⟩
        · rintro ⟨-, hmember, -⟩
          exact absurd (hmember hkey) hkept

/-- Members have a mode when a paging is read of them, which is then that of the members besides the mode. -/
theorem decoder_object_eq_ok_iff {members : List Member} {ending : Ending} {paging : Paging} :
    decoder (.object members ending) = .ok paging ↔
      ending = .closed ∧ ∃ mode, HasMode members mode ∧ ofMembers (members.filter (·.1 ≠ some "mode")) mode = .ok paging := by
  constructor
  · intro h
    rw [decoder] at h
    obtain ⟨found, hfound, hrest⟩ := Except.exists_of_bind_eq_ok h
    cases ending with
    | cut => cases hrest
    | closed =>
      cases found with
      | none => cases hrest
      | some mode => exact ⟨rfl, mode, findMode_eq_ok_iff.1 hfound, hrest⟩
  · rintro ⟨rfl, mode, hmode, hmembers⟩
    rw [decoder, findMode_eq_ok_iff.2 hmode]
    exact hmembers

theorem pairwise_cursorFields : cursorFields.Pairwise Field.Commutes :=
  List.pairwise_pair.2 (Field.commutes_of fun _ _ _ => rfl)

theorem pairwise_offsetFields : offsetFields.Pairwise Field.Commutes :=
  List.pairwise_pair.2 (Field.commutes_of fun _ _ _ => rfl)

/-- In a mode neither the order of its fields makes a difference nor what is no field of it. -/
theorem ofMembers_of_extends {mode : Mode} {held others : List Member}
    (hothers : Decoder.Extends (Decoder.IsForeign mode.fieldNames) held others) {paging : Paging}
    (h : ofMembers held mode = .ok paging) : ofMembers others mode = .ok paging := by
  cases mode with
  | cursor =>
    obtain ⟨fields, hfields, hpaging⟩ := Except.exists_of_bind_eq_ok h
    rw [ofMembers, Decoder.object_of_extends pairwise_cursorFields hothers hfields]
    exact hpaging
  | offset =>
    obtain ⟨fields, hfields, hpaging⟩ := Except.exists_of_bind_eq_ok h
    rw [ofMembers, Decoder.object_of_extends pairwise_offsetFields hothers hfields]
    exact hpaging

/-- The mode stays where members are added that can be kept. -/
theorem HasMode.of_extends {mode : Mode} {held others : List Member} (h : HasMode held mode)
    (hothers : Decoder.Extends (fun member => member.1 ≠ some "mode" ∧ IsKept member) held others) : HasMode others mode := by
  obtain ⟨added, hadded, hperm⟩ := hothers
  obtain ⟨hfilter, hheld⟩ := h
  have hnone : added.filter (·.1 = some "mode") = [] := by
    rw [List.filter_eq_nil_iff]
    intro member hmember hname
    exact (hadded member hmember).1 (of_decide_eq_true hname)
  constructor
  · have hmodes := hperm.filter (·.1 = some "mode")
    rw [List.filter_append, hfilter, hnone, List.append_nil] at hmodes
    exact List.perm_singleton.1 hmodes
  · intro member hmember hname
    rcases List.mem_append.1 (hperm.mem_iff.1 hmember) with hmember | hmember
    · exact hheld member hmember hname
    · exact (hadded member hmember).2

/-- Rearranging a paging makes no difference. -/
theorem decoder_rearranged {held others : List Member} {mode : Mode} (hmode : (some "mode", .text (some mode.name)) ∈ held)
    (hothers : Decoder.Extends (fun member => Decoder.IsForeign ("mode" :: mode.fieldNames) member ∧ member.2.NestsWithin 100)
      held others) {ending : Ending} {paging : Paging} (h : decoder (.object held ending) = .ok paging) :
    decoder (.object others ending) = .ok paging := by
  obtain ⟨hending, found, hfound, hmembers⟩ := decoder_object_eq_ok_iff.1 h
  -- The mode that is found is that of the document.
  have heq : found = mode := by
    have hmem : (some "mode", .text (some mode.name)) ∈ held.filter (·.1 = some "mode") := List.mem_filter.2 ⟨hmode, by simp⟩
    rw [hfound.1, List.mem_singleton] at hmem
    have hname : mode.name = found.name := Option.some.inj (Reading.text.inj (congrArg Prod.snd hmem))
    cases mode <;> cases found <;> first | rfl | exact absurd hname (by decide)
  subst heq
  obtain ⟨added, hadded, hperm⟩ := hothers
  have hkept : ∀ member ∈ added, member.1 ≠ some "mode" ∧ IsKept member := by
    intro member hmember
    obtain ⟨⟨name, hkey, hname⟩, hnests⟩ := hadded member hmember
    refine ⟨?_, by rw [hkey]; rfl, hnests.isKeepable (by decide)⟩
    intro hmode
    rw [hkey] at hmode
    exact hname (Option.some.inj hmode ▸ List.mem_cons_self)
  have hforeign : ∀ member ∈ added, Decoder.IsForeign found.fieldNames member := by
    intro member hmember
    obtain ⟨⟨name, hkey, hname⟩, -⟩ := hadded member hmember
    exact ⟨name, hkey, fun hmem => hname (List.mem_cons_of_mem _ hmem)⟩
  have hbesides := hperm.filter (·.1 ≠ some "mode")
  rw [List.filter_append] at hbesides
  have hfields : ofMembers (others.filter (·.1 ≠ some "mode")) found = .ok paging := by
    refine ofMembers_of_extends ⟨_, ?_, hbesides⟩ hmembers
    intro member hmember
    exact hforeign member (List.mem_filter.1 hmember).1
  exact decoder_object_eq_ok_iff.2 ⟨hending, found, hfound.of_extends ⟨added, hkept, hperm⟩, hfields⟩

/-- The order of the members of a paging makes no difference where the paging may be missing. -/
theorem optional_rearranged {value other : Reading} (h : Rearranged value other) {paging : Option Paging}
    (hpaging : Decoder.optional decoder value = .ok paging) : Decoder.optional decoder other = .ok paging := by
  cases h with
  | same => exact hpaging
  | members mode_mem added ending =>
    refine Decoder.optional_of_ne_null Reading.noConfusion Reading.noConfusion ?_ hpaging
    intro paging hpaging
    exact decoder_rearranged mode_mem added hpaging

end Paging

/-! ## Requests -/

namespace Request

/-- A member of a request whose paging or sort may be rearranged. -/
inductive MemberRearranged : Member → Member → Prop where
  | same (member : Member) : MemberRearranged member member
  | paging {value other : Reading} (rearranged : Paging.Rearranged value other) :
      MemberRearranged (some "pagination", value) (some "pagination", other)
  | sort {value other : Reading} (rearranged : NamedSort.AllRearranged value other) :
      MemberRearranged (some "sort", value) (some "sort", other)

/-- The members of a request with its paging and its sort rearranged, in any order, and with members among them that are neither. -/
def Rearranged (members others : List Member) : Prop :=
  ∃ changed, List.Forall₂ MemberRearranged members changed ∧ Decoder.Extends (Decoder.IsForeign ["pagination", "sort"]) changed others

theorem pairwise_fields : fields.Pairwise Field.Commutes :=
  List.pairwise_pair.2 (Field.commutes_of fun _ _ _ => rfl)

/-- Of a member whose paging or sort is rearranged the same is read. -/
theorem readsAs_of_memberRearranged {member other : Member} (h : MemberRearranged member other) :
    Decoder.ReadsAs fields member other := by
  cases h with
  | same => exact ⟨rfl, fun _ _ _ _ hset => hset⟩
  | paging rearranged =>
    refine ⟨rfl, ?_⟩
    intro field hfield hname change hset
    rcases List.mem_pair.1 hfield with rfl | rfl
    · obtain ⟨paging, hpaging, rfl⟩ := Field.set_of_eq_ok_iff.1 hset
      exact Field.set_of_eq_ok_iff.2 ⟨paging, Paging.optional_rearranged rearranged hpaging, rfl⟩
    · exact absurd (Option.some.inj hname) (by decide)
  | sort rearranged =>
    refine ⟨rfl, ?_⟩
    intro field hfield hname change hset
    rcases List.mem_pair.1 hfield with rfl | rfl
    · exact absurd (Option.some.inj hname) (by decide)
    · obtain ⟨sorts, hsorts, rfl⟩ := Field.set_of_eq_ok_iff.1 hset
      exact Field.set_of_eq_ok_iff.2 ⟨sorts, NamedSort.optional_rearranged rearranged hsorts, rfl⟩

/-- Of a rearranged document the same request is read. -/
theorem decoder_rearranged {members others : List Member} (h : Rearranged members others) {request : Request}
    (hrequest : decoder (.object members .closed) = .ok request) : decoder (.object others .closed) = .ok request := by
  obtain ⟨changed, hchanged, hothers⟩ := h
  refine Decoder.object_of_extends pairwise_fields hothers (Decoder.object_of_readsAs (hchanged.imp ?_) hrequest)
  intro member other
  exact readsAs_of_memberRearranged

/-- Neither the order of members nor unknown keys change a request. When a text is the document of one, the same request is read of any
text that spells the object rearranged: with the members of the request, of its paging and of each sort in any order, with whatever
members in the request besides its paging and its sort, and with whatever in the paging besides the mode and the fields of that mode, as
long as it is not nested deeper than 100 containers. -/
theorem ofJson_rearranged {text rearranged : String} {members others : List Member}
    (htext : (Reading.object members .closed).IsSpelled text.toList)
    (hrearranged : (Reading.object others .closed).IsSpelled rearranged.toList) (h : Rearranged members others)
    (haccepted : ∃ request, ofJson text = .ok request) : ofJson rearranged = ofJson text := by
  obtain ⟨request, hrequest⟩ := haccepted
  have hread := Except.eq_ok_of_mapError hrequest
  rw [Decoder.decodeText_of_isSpelled _ htext] at hread
  rw [hrequest, ofJson, Decoder.decodeText_of_isSpelled _ hrearranged, decoder_rearranged h hread]
  rfl

/-- A request by cursor with one sort, and the same with its members the other way round, a page that is no number in the paging and
an unknown key. -/
theorem ofJson_rearranged_id :
    let text := "\x7b\"pagination\":\x7b\"limit\":9,\"mode\":\"cursor\"\x7d,\"sort\":[\x7b\"direction\":\"asc\",\"column\":\"id\"\x7d]\x7d"
    let rearranged :=
      "\x7b\"sort\":[\x7b\"column\":\"id\",\"direction\":\"asc\"\x7d],\"at\":[null],\"pagination\":\x7b\"page\":[[]],\"mode\":\"cursor\",\"limit\":9\x7d\x7d"
    ofJson text = .ok ⟨some (.cursor (some 9) none), some [⟨"id", .asc⟩]⟩ ∧ ofJson rearranged = ofJson text := by
  intro text rearranged
  let limit : Member := (some "limit", .number (.integer 9))
  let mode : Member := (some "mode", .text (some "cursor"))
  let page : Member := (some "page", .array [.array [] .closed] .closed)
  let column : Member := (some "column", .text (some "id"))
  let direction : Member := (some "direction", .text (some "asc"))
  let known : Member := (some "at", .array [.null] .closed)
  have htext : (Reading.object [(some "pagination", .object [limit, mode] .closed),
      (some "sort", .array [.object [direction, column] .closed] .closed)] .closed).IsSpelled text.toList :=
    Reading.ofChars_eq_iff.1 (by simp only [text, limit, mode, direction, column]; rfl)
  have hrearranged : (Reading.object [(some "sort", .array [.object [column, direction] .closed] .closed), known,
      (some "pagination", .object [page, mode, limit] .closed)] .closed).IsSpelled rearranged.toList :=
    Reading.ofChars_eq_iff.1 (by simp only [rearranged, page, known, limit, mode, direction, column]; rfl)
  have haccepted : ofJson text = .ok ⟨some (.cursor (some 9) none), some [⟨"id", .asc⟩]⟩ := by
    rw [ofJson, Decoder.decodeText_of_isSpelled _ htext]
    rfl
  refine ⟨haccepted, ofJson_rearranged htext hrearranged ?_ ⟨_, haccepted⟩⟩
  have hpage : ∀ member ∈ [page], Decoder.IsForeign ("mode" :: Paging.Mode.cursor.fieldNames) member ∧ member.2.NestsWithin 100 := by
    rw [List.forall_mem_singleton]
    refine ⟨⟨"page", rfl, by decide⟩, .array (List.forall_mem_singleton.2 (.array ?_))⟩
    intro item hitem
    cases hitem
  have hpaging : Paging.Rearranged (.object [limit, mode] .closed) (.object [page, mode, limit] .closed) :=
    @Paging.Rearranged.members .cursor [limit, mode] [page, mode, limit] (List.mem_cons_of_mem limit List.mem_cons_self)
      ⟨[page], hpage, List.reverse_perm [limit, mode, page]⟩ .closed
  have hsort : NamedSort.AllRearranged (.array [.object [direction, column] .closed] .closed)
      (.array [.object [column, direction] .closed] .closed) :=
    .items (.cons (.members (.swap column direction []) .closed) .nil) .closed
  refine ⟨_, .cons (.paging hpaging) (.cons (.sort hsort) .nil), [known], ?_, ?_⟩
  · exact List.forall_mem_singleton.2 ⟨"at", rfl, by decide⟩
  · exact ((List.Perm.swap _ known []).cons _).trans (.swap _ _ [known])

end Request

end Keyset
