import Keyset.Proofs.Sample
import Keyset.Proofs.Walk.Visit

/-!
# Cursors that are handed out

A cursor that a query hands out is taken by the next request as long as it is within the length up to which tokens are looked at,
and refused for its length otherwise (`Query.ofListing_nextCursor`). No length is kept when a cursor is made: a token is longer by a
third than the document in it (`Boundary.utf8ByteSize_token`), so it is longer than the text of the sort value.
-/

namespace Keyset

/-! ## The length of tokens -/

/-- Three bytes are written as four symbols, and a group that is not full with one more than it has bytes. -/
theorem Base64.length_sextetsOf (bs : List UInt8) : (sextetsOf bs).length = (4 * bs.length + 2) / 3 := by
  induction bs using sextetsOf.induct with
  | case1 => simp [sextetsOf]
  | case2 a => simp [sextetsOf]
  | case3 a b => simp [sextetsOf]
  | case4 a b c rest ih =>
    simp only [sextetsOf, List.length_cons, ih]
    omega

/-- A text that is written part by part, and no part as nothing, gets no shorter. -/
theorem length_le_length_flatMap {α β : Type} {write : α → List β} (h : ∀ x, write x ≠ []) (xs : List α) :
    xs.length ≤ (xs.flatMap write).length := by
  induction xs with
  | nil => exact Nat.le_refl 0
  | cons x xs ih =>
    have hpos := List.length_pos_iff.2 (h x)
    rw [List.flatMap_cons, List.length_append, List.length_cons]
    omega

/-- Every character has a byte. -/
theorem Utf8.length_le_length_encode (cs : List Char) : cs.length ≤ (encode cs).length := by
  refine length_le_length_flatMap ?_ cs
  intro c hempty
  have hpos := c.utf8Size_pos
  rw [← String.length_utf8EncodeChar, hempty] at hpos
  exact absurd hpos (Nat.lt_irrefl 0)

/-- Every character is written between the quotes. -/
theorem Json.length_lt_length_quote (s : String) : s.length < (quote s).length := by
  have hescape : ∀ c, escape c ≠ [] := by
    intro c
    unfold escape
    repeat (split; · exact List.cons_ne_nil _ _)
    exact List.cons_ne_nil _ _
  have hchars := length_le_length_flatMap hescape s.toList
  rw [String.length_toList] at hchars
  rw [quote, List.length_append, List.length_cons]
  omega

namespace Boundary

/-- The text of the sort value is written in the document. -/
theorem Wire.length_quote_le (wire : Wire) : (Json.quote wire.value).length ≤ wire.toJson.chars.length := by
  simp only [toJson, Json.chars, List.cons_append, List.nil_append, Json.memberChars]
  cases Json.memberChars (if wire.idKind = .text then [] else [("idType", .text wire.idKind.name)]) <;>
    simp only [List.intercalate, List.intersperse, List.flatten_cons, List.length_append, List.length_cons] <;> omega

/-- A token has four symbols for three bytes of its document. -/
theorem utf8ByteSize_token (b : Boundary) : b.token.utf8ByteSize = (4 * b.toWire.toJson.render.utf8ByteSize + 2) / 3 := by
  rw [token, Json.render, ← Utf8.length_encode, ← Utf8.length_encode, Base64.encode_utf8, List.length_map, Base64.length_sextetsOf]

/-- A token is longer than the text of its sort value. -/
theorem length_value_lt_token (b : Boundary) : b.value.toText.length < b.token.utf8ByteSize := by
  have hquote := Json.length_lt_length_quote b.toWire.value
  have hdocument := b.toWire.length_quote_le
  have hbytes := Utf8.length_le_length_encode b.toWire.toJson.chars
  have hvalue : b.toWire.value = b.value.toText := rfl
  rw [Utf8.length_encode] at hbytes
  rw [hvalue] at hquote hdocument
  rw [utf8ByteSize_token, Json.render]
  omega

end Boundary

/-! ## The next request -/

namespace Query

variable [DecidableEq κ] {d : Definition κ} {listing next : Listing κ} {q : Query κ} {limit : UInt32} {token : String}

/-- The query of a listing behind a cursor goes by its first sort, or by the standard one. -/
theorem ofListing_eq_byCursor {cursor : Option String} (hwindow : listing.window = .cursor limit cursor) :
    ofListing d listing = ofListing d (.byCursor (listing.sorts.headD d.defaultSort) limit cursor) := by
  simp only [ofListing, hwindow, Listing.byCursor, List.headD_cons]

/-- The query behind the token of a boundary looks behind what the token carries, unless the token is too long. -/
theorem ofListing_token (d : Definition κ) (sort : SortBy κ) (hexposed : sort.key ∈ d.table.exposed) (limit : UInt32)
    (boundary : Boundary) : ofListing d (.byCursor sort limit (some boundary.token)) =
      if boundary.token.utf8ByteSize ≤ Boundary.maxTokenLength then
        .ok ⟨d.walkOrder sort, d.identity, .behind sort (d.table.column sort.key)
          (some (boundary.carried.seek (d.table.column sort.key) d.identity sort.direction)) limit⟩
      else .error (.token (.tooLong boundary.token.utf8ByteSize Boundary.maxTokenLength)) := by
  rw [Definition.ofListing_byCursor hexposed, seekOf, boundary.ofToken_token]
  split <;> rfl

/-- A query by page numbers has no cursor. -/
theorem cursorColumn?_of_offset {page pageSize : UInt32} (hwindow : listing.window = .offset page pageSize)
    (h : ofListing d listing = .ok q) : q.cursorColumn? = none := by
  simp only [ofListing, hwindow] at h
  obtain ⟨fields, -, hq⟩ := Except.exists_of_bind_eq_ok h
  cases hq
  rfl

/-- A query hands out the token of a boundary, in the cursor mode only. -/
theorem exists_of_nextCursor [Row ρ] {fetched : List ρ} (h : ofListing d listing = .ok q)
    (htoken : q.nextCursor fetched = some token) :
    (∃ limit cursor, listing.window = .cursor limit cursor) ∧ ∃ boundary : Boundary, token = boundary.token := by
  unfold Query.nextCursor Keyset.nextCursor at htoken
  split at htoken
  · cases htoken
  · rename_i column hcolumn
    constructor
    · cases hwindow : listing.window with
      | cursor limit cursor => exact ⟨limit, cursor, rfl⟩
      | offset page pageSize =>
        rw [cursorColumn?_of_offset hwindow h] at hcolumn
        cases hcolumn
    · split at htoken
      · cases htoken
      · obtain ⟨boundary, -, rfl⟩ := Option.map_eq_some_iff.1 htoken
        exact ⟨boundary, rfl⟩

/-- A request by the same sort with a cursor that was handed out makes a query in the same order when the cursor is not too long,
and is refused for the length of the cursor otherwise. -/
theorem ofListing_nextCursor [Row ρ] (d : Definition κ) (listing : Listing κ) (q : Query κ) (h : ofListing d listing = .ok q)
    (fetched : List ρ) (token : String) (htoken : q.nextCursor fetched = some token) (next : Listing κ) (limit : UInt32)
    (hsorts : next.sorts = listing.sorts) (hwindow : next.window = .cursor limit (some token)) :
    (token.utf8ByteSize ≤ Boundary.maxTokenLength → ∃ q', ofListing d next = .ok q' ∧ q'.order = q.order) ∧
      (Boundary.maxTokenLength < token.utf8ByteSize →
        ofListing d next = .error (.token (.tooLong token.utf8ByteSize Boundary.maxTokenLength))) := by
  obtain ⟨⟨first, cursor, hfirst⟩, boundary, rfl⟩ := exists_of_nextCursor h htoken
  rw [ofListing_eq_byCursor hfirst] at h
  have horder := Definition.order_eq_walkOrder h
  rw [ofListing_eq_byCursor hwindow, hsorts, ofListing_token d _ (Definition.exposed_of_ofListing h), horder]
  constructor
  · intro hfits
    rw [if_pos hfits]
    exact ⟨_, rfl, rfl⟩
  · intro hlong
    rw [if_neg (Nat.not_le.2 hlong)]

/-- The cursor behind Ann, one on a page, is taken by the request for the next five people. -/
theorem ofListing_nextCursor_ann :
    ∃ q', ofListing Sample.people (.byCursor ⟨(), .asc⟩ 5 (some (Boundary.token ⟨.text "Ann", .text "1"⟩))) = .ok q' ∧
      q'.order = Sample.people.walkOrder ⟨(), .asc⟩ := by
  have h : ofListing Sample.people (.byCursor ⟨(), .asc⟩ 1 none) =
      .ok ⟨Sample.people.walkOrder ⟨(), .asc⟩, ⟨"id"⟩, .behind ⟨(), .asc⟩ ⟨"name"⟩ none 1⟩ := rfl
  exact (ofListing_nextCursor Sample.people (.byCursor ⟨(), .asc⟩ 1 none) _ h [Sample.person 0 "Ann" "1", Sample.person 1 "Bob" "2"]
    (Boundary.token ⟨.text "Ann", .text "1"⟩) rfl (.byCursor ⟨(), .asc⟩ 5 (some (Boundary.token ⟨.text "Ann", .text "1"⟩))) 5 rfl
    rfl).1 (by decide)

end Query

/-- A name of 8192 letters. -/
def Sample.longName : String :=
  String.ofList (List.replicate 8192 'a')

theorem Sample.length_longName : longName.length = Boundary.maxTokenLength :=
  String.length_ofList.trans List.length_replicate

/-- The cursor behind a person of this name is handed out, and refused whatever the next limit is. -/
theorem Query.ofListing_nextCursor_longName :
    ∃ q token, ofListing Sample.people (.byCursor ⟨(), .asc⟩ 1 none) = .ok q ∧
      q.nextCursor [Sample.person 0 Sample.longName "1", Sample.person 1 "Bob" "2"] = some token ∧
      ∀ limit, ofListing Sample.people (.byCursor ⟨(), .asc⟩ limit (some token)) =
        .error (.token (.tooLong token.utf8ByteSize Boundary.maxTokenLength)) := by
  have hname : Sample.longName.length = Boundary.maxTokenLength := Sample.length_longName
  have hlong := Boundary.length_value_lt_token ⟨.text Sample.longName, .text "1"⟩
  rw [Value.toText, hname] at hlong
  have hnext : ∀ name, Keyset.nextCursor [Sample.person 0 name "1", Sample.person 1 "Bob" "2"] 1 (some ⟨"name"⟩) ⟨"id"⟩ =
      some (Boundary.token ⟨.text name, .text "1"⟩) := fun _ => rfl
  refine ⟨⟨Sample.people.walkOrder ⟨(), .asc⟩, ⟨"id"⟩, .behind ⟨(), .asc⟩ ⟨"name"⟩ none 1⟩,
    Boundary.token ⟨.text Sample.longName, .text "1"⟩, rfl, hnext Sample.longName, ?_⟩
  intro limit
  rw [ofListing_token Sample.people ⟨(), .asc⟩ (List.mem_singleton.2 rfl), if_neg (Nat.not_le.2 hlong)]

end Keyset
