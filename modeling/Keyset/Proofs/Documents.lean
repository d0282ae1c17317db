import Keyset.Proofs.Json.Decoding
import Keyset.Release
import Keyset.Page

/-!
# Requests, pages and policies are read back

What is written of a request, of a page or of a policy is read as that request, page or policy (`documents_read_back`), so it makes no
difference whether a request comes as a value or as its document. The members of a paging are looked through for the mode first; what
is written there can all be kept (`Paging.findMode_of_keepable`).
-/

namespace Keyset

open Json

/-! ## Sorts -/

theorem Direction.reads : Direction.decoder.Reads (.text ·.name) := by
  intro direction
  cases direction <;> rfl

/-- Sorts are read back. -/
theorem NamedSort.reads : NamedSort.decoder.Reads NamedSort.toJson := by
  intro sort
  refine Decoder.record_of_written ?_ (by decide)
  exact .cons (Field.set_of Decoder.reads_text _ _ _ sort.name) <|
    .cons (Field.set_of Direction.reads _ _ _ sort.direction) (.nil _)

/-! ## Pagings -/

namespace Paging

/-- An integer that a word can hold is kept. -/
theorem isKeepable_int64 (n : Int64) : (Json.number n.toInt).reading.isKeepable keptDepth = true := by
  have hle := n.le_toInt
  have hlt := n.toInt_lt
  rw [Json.reading, Numeral.ofChars_ofInt (by omega) (by omega)]
  rfl

theorem isKeepable_text (s : String) : (Json.text s).reading.isKeepable keptDepth = true :=
  rfl

/-- A value that may be missing is kept if it is when it is there. -/
theorem isKeepable_optional {write : α → Json} (h : ∀ a, (write a).reading.isKeepable keptDepth = true) (value : Option α) :
    (Json.optional write value).reading.isKeepable keptDepth = true := by
  cases value with
  | none => rfl
  | some a => exact h a

/-- Members that can all be kept and of which none is the mode leave the mode as it was found. -/
theorem findMode_of_keepable {members : List Member}
    (h : ∀ member ∈ members, member.1 ≠ some "mode" ∧ member.1.isSome = true ∧ member.2.isKeepable keptDepth = true)
    (mode : Option Mode) : findMode mode members = .ok mode := by
  induction members with
  | nil => rfl
  | cons member members ih =>
    obtain ⟨⟨hmode, hkey, hvalue⟩, hmembers⟩ := List.forall_mem_cons.1 h
    rw [findMode, if_neg hmode, if_pos ⟨hkey, hvalue⟩, ih hmembers]

/-- The paging of the mode that comes first, from the members behind it. -/
theorem decoder_object (mode : Mode) {members : List (String × Json)} (hmode : ∀ member ∈ members, member.1 ≠ "mode")
    (hkeep : ∀ member ∈ members, member.2.reading.isKeepable keptDepth = true) :
    decoder (Json.object (("mode", .text mode.name) :: members)).reading = ofMembers (memberReadings members) mode := by
  have hkept : ∀ member ∈ memberReadings members,
      member.1 ≠ some "mode" ∧ member.1.isSome = true ∧ member.2.isKeepable keptDepth = true := by
    rw [memberReadings_eq_map, List.forall_mem_map]
    intro member hmember
    exact ⟨fun hname => hmode member hmember (Option.some.inj hname), rfl, hkeep member hmember⟩
  have hfind : findMode none ((some "mode", .text (some mode.name)) :: memberReadings members) = .ok (some mode) := by
    cases mode <;> exact findMode_of_keepable hkept _
  have hothers : (memberReadings members).filter (·.1 ≠ some "mode") = memberReadings members := by
    rw [List.filter_eq_self]
    intro member hmember
    exact decide_eq_true (hkept member hmember).1
  rw [reading, memberReadings, reading, decoder, hfind]
  simp only [bind, Except.bind, List.filter_cons_of_neg, ne_eq, not_true_eq_false, decide_false, Bool.false_eq_true,
    not_false_eq_true, hothers]
  rfl

/-- Pagings are read back, in both modes. -/
theorem reads : decoder.Reads toJson := by
  have hnumber : ∀ n : Int64, (Json.number n.toInt).reading ≠ .null := by
    rintro n ⟨⟩
  have htext : ∀ s : String, (Json.text s).reading ≠ .null := by
    rintro s ⟨⟩
  have hnumbers := Decoder.reads_int64.optional hnumber
  have htexts := Decoder.reads_text.optional htext
  intro paging
  cases paging with
  | cursor limit token =>
    have hwritten : Written cursorFields [("limit", .optional (.number ·.toInt) limit), ("cursor", .optional .text token)]
        (none, none) (limit, token) :=
      .cons (Field.set_of hnumbers _ _ _ limit) (.cons (Field.set_of htexts _ _ _ token) (.nil _))
    refine (decoder_object .cursor ?_ ?_).trans ?_
    · simp
    · simp [isKeepable_optional isKeepable_int64, isKeepable_optional isKeepable_text]
    · rw [ofMembers, Decoder.object_of_written hwritten (by decide)]
      rfl
  | offset page pageSize =>
    have hwritten : Written offsetFields
        [("page", .optional (.number ·.toInt) page), ("pageSize", .optional (.number ·.toInt) pageSize)]
        (none, none) (page, pageSize) :=
      .cons (Field.set_of hnumbers _ _ _ page) (.cons (Field.set_of hnumbers _ _ _ pageSize) (.nil _))
    refine (decoder_object .offset ?_ ?_).trans ?_
    · simp
    · simp [isKeepable_optional isKeepable_int64]
    · rw [ofMembers, Decoder.object_of_written hwritten (by decide)]
      rfl

end Paging

/-! ## Requests -/

/-- Requests are read back, with or without a paging and sorts. -/
theorem Request.reads : Request.decoder.Reads Request.toJson := by
  have hpaging := Paging.reads.optional (by rintro (_ | _) ⟨⟩)
  have hsorts := NamedSort.reads.list.optional (by rintro sorts ⟨⟩)
  rintro ⟨paging, sorts⟩
  refine Decoder.record_of_written ?_ (by decide)
  cases paging with
  | none =>
    refine .skip (by decide) ?_
    cases sorts with
    | none => exact .skip (by decide) (.nil _)
    | some sorts => exact .cons (Field.set_of hsorts _ _ _ (some sorts)) (.nil _)
  | some paging =>
    refine .cons (Field.set_of hpaging _ _ _ (some paging)) ?_
    cases sorts with
    | none => exact .skip (by decide) (.nil _)
    | some sorts => exact .cons (Field.set_of hsorts _ _ _ (some sorts)) (.nil _)

/-! ## Pages -/

/-- What stands beside the rows of a page behind a cursor is read back. -/
theorem CursorInfo.reads : CursorInfo.decoder.Reads CursorInfo.toJson := by
  have hcursor := Decoder.reads_text.optional (by rintro s ⟨⟩)
  intro info
  refine Decoder.record_of_written ?_ (by decide)
  exact .cons (Field.set_of Decoder.reads_bool _ _ _ info.hasNextPage) <|
    .cons (Field.set_of hcursor _ _ _ info.nextCursor) (.nil _)

/-- What stands beside the rows of a numbered page is read back. -/
theorem OffsetInfo.reads : OffsetInfo.decoder.Reads OffsetInfo.toJson := by
  intro info
  refine Decoder.record_of_written ?_ (by decide)
  exact .cons (Field.set_of Decoder.reads_uint32 _ _ _ info.page) <|
    .cons (Field.set_of Decoder.reads_uint32 _ _ _ info.pageSize) <|
    .cons (Field.set_of Decoder.reads_uint64 _ _ _ info.pageCount) <|
    .cons (Field.set_of Decoder.reads_uint64 _ _ _ info.total) (.nil _)

/-- Pages are read back when their rows and what stands beside them are. -/
theorem Page.reads {row : Decoder ρ} {writeRow : ρ → Json} (hrow : row.Reads writeRow) {info : Decoder ι} {writeInfo : ι → Json}
    (hinfo : info.Reads writeInfo) (blank : ι) : (Page.decoder row info blank).Reads (Page.toJson writeRow writeInfo) := by
  intro page
  have hnames : ((Page.fields row info).map Field.name) = ["data", "pagination"] := rfl
  refine Decoder.record_of_written ?_ (hnames ▸ by decide)
  exact .cons (Field.set_of hrow.list _ _ _ page.data) <|
    .cons (Field.set_of hinfo _ _ _ page.pagination) (.nil _)

/-! ## Policies -/

/-- The bounds of a policy are read back, be they valid or not. -/
theorem Policy.reads : (Decoder.record Policy.fields .refused Policy.standard).Reads Policy.toJson := by
  intro policy
  refine Decoder.record_of_written ?_ (by decide)
  exact .cons (Field.set_of Decoder.reads_uint32 _ _ _ policy.defaultLimit) <|
    .cons (Field.set_of Decoder.reads_uint32 _ _ _ policy.maxLimit) <|
    .cons (Field.set_of Decoder.reads_uint32 _ _ _ policy.defaultPageSize) <|
    .cons (Field.set_of Decoder.reads_uint32 _ _ _ policy.maxPageSize) (.nil _)

/-! ## Documents -/

/-- The document of a request is read as the request, so its query is that of the request, errors included. The document of a page of
numbers is read as the page. The document of a policy is read as the policy if that is valid, and else refused for the first thing
that is wrong with it. -/
theorem documents_read_back :
    (∀ request : Request, Request.ofJson request.toJson.render = .ok request ∧
      ∀ (κ : Type) [DecidableEq κ] (d : Definition κ), Query.ofJson d request.toJson.render =
        (Listing.ofRequest d request).mapError .request >>= Query.ofListing d) ∧
    (∀ (page : Page Int64 CursorInfo) (blank : CursorInfo),
      (Page.decoder .int64 CursorInfo.decoder blank).decodeText (page.toJson (.number ·.toInt) CursorInfo.toJson).render =
        .ok page) ∧
    (∀ (page : Page Int64 OffsetInfo) (blank : OffsetInfo),
      (Page.decoder .int64 OffsetInfo.decoder blank).decodeText (page.toJson (.number ·.toInt) OffsetInfo.toJson).render =
        .ok page) ∧
    ∀ policy : Policy, Policy.ofJson policy.toJson.render =
      match policy.fault? with
      | some fault => .error fault
      | none => .ok policy := by
  refine ⟨?_, ?_, ?_, ?_⟩
  · intro request
    have hread : Request.ofJson request.toJson.render = .ok request := by
      rw [Request.ofJson, Decoder.decodeText_render (Request.reads request)]
      rfl
    refine ⟨hread, ?_⟩
    intro κ _ d
    rw [Query.ofJson, Listing.ofJson, hread]
    rfl
  · intro page blank
    exact Decoder.decodeText_render (Page.reads Decoder.reads_int64 CursorInfo.reads blank page)
  · intro page blank
    exact Decoder.decodeText_render (Page.reads Decoder.reads_int64 OffsetInfo.reads blank page)
  · intro policy
    rw [Policy.ofJson, Decoder.decodeText_render (Policy.reads policy)]
    rfl

end Keyset
