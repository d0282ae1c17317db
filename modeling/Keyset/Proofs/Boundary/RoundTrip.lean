import Keyset.Boundary.Token
import Keyset.Proofs.Calendar.Timestamp
import Keyset.Proofs.Json.ReadBack
import Keyset.Proofs.Number.RoundTrip
import Keyset.Proofs.Text.Base64
import Keyset.Proofs.Text.Lexical

/-!
# Tokens are read back

What a cursor token carries of a boundary (`Boundary.carried`): everything but the bits of a NaN and what a timestamp does not show
of an instant. The tokens are meant to lose no more than what is finer than a millisecond (`Boundary.cut`), and they do so unless
there is a leap second inside a minute. `Boundary.token_roundTrip` puts the layers together: the texts of the two values, the
document, its bytes and the symbols of these.
-/

namespace Keyset

/-! ## Values -/

/-- What is left of a value that travels as a text: one NaN for all of them, and what its timestamp shows of an instant. -/
def Value.carried : Value → Value
  | .text s => .text s
  | .number x => .number (if x.isNaN then Number.nan else x)
  | .date t => .date t.carried

/-- What should be left of a value that travels as a text: one NaN for all of them, and an instant cut to milliseconds. -/
def Value.cut : Value → Value
  | .text s => .text s
  | .number x => .number (if x.isNaN then Number.nan else x)
  | .date t => .date t.toMillis

/-- A value that is an instant which a clock shows as no other, or no instant. -/
def Value.IsCivil (v : Value) : Prop :=
  ∀ t, v = .date t → t.IsCivil

theorem Value.isCivil_of_kind {v : Value} (h : v.kind ≠ .date) : v.IsCivil := by
  rintro t rfl
  exact absurd rfl h

/-- What is left of a value is what should be, unless the value is a leap second inside a minute. -/
theorem Value.carried_eq_cut_iff {v : Value} : v.carried = v.cut ↔ v.IsCivil := by
  cases v with
  | text s => exact iff_of_true rfl (isCivil_of_kind nofun)
  | number x => exact iff_of_true rfl (isCivil_of_kind nofun)
  | date t =>
    rw [carried, cut, date.injEq, Instant.carried_eq_toMillis_iff]
    constructor
    · rintro h t' ⟨⟩
      exact h
    · intro h
      exact h t rfl

theorem Value.kind_carried (v : Value) : v.carried.kind = v.kind := by
  cases v <;> rfl

/-- The text of a value is read as what is left of it. -/
theorem Value.ofText?_toText (v : Value) : ofText? v.kind v.toText = some v.carried := by
  cases v with
  | text s => rfl
  | number x =>
    have hread : Number.parse? x.text = some (if x.isNaN then Number.nan else x) := by
      cases h : x.isNaN with
      | true => exact Number.parse?_text_of_isNaN h
      | false => exact Number.parse?_text h
    simp only [kind, toText, ofText?, hread, Option.map_some, carried]
  | date t => simp only [kind, toText, ofText?, Instant.parse?_text, Option.map_some, carried]

/-- What is left of a value has the same text. -/
theorem Value.toText_carried (v : Value) : v.carried.toText = v.toText := by
  cases v with
  | text s => rfl
  | number x =>
    cases h : x.isNaN with
    | true =>
      have hnan : x.text = Number.nan.text := by
        rw [Number.text, Number.chars, if_pos h]
        rfl
      simp only [carried, h, if_true, toText, hnan]
    | false => simp [carried, h]
  | date t => exact Instant.text_carried t

namespace Boundary

/-- What is left of a boundary that travels as a token. -/
def carried (boundary : Boundary) : Boundary :=
  ⟨boundary.value.carried, boundary.id.carried⟩

/-- What should be left of a boundary that travels as a token. -/
def cut (boundary : Boundary) : Boundary :=
  ⟨boundary.value.cut, boundary.id.cut⟩

/-- A boundary that holds no leap second inside a minute. -/
def IsCivil (boundary : Boundary) : Prop :=
  boundary.value.IsCivil ∧ boundary.id.IsCivil

/-- What is left of a boundary is what should be, unless it holds a leap second inside a minute. -/
theorem carried_eq_cut_iff {b : Boundary} : b.carried = b.cut ↔ b.IsCivil := by
  rw [carried, cut, mk.injEq, Value.carried_eq_cut_iff, Value.carried_eq_cut_iff, IsCivil]

/-! ## Documents -/

theorem Wire.decoder_toJson (wire : Wire) : decoder wire.toJson.reading = .ok wire := by
  obtain ⟨value, kind, id, idKind⟩ := wire
  cases kind <;> cases idKind <;> rfl

/-- The bytes of a token are read as the document that was written. -/
theorem wireOfBytes_token (b : Boundary) : wireOfBytes (Utf8.encode b.token.toList) = .ok b.toWire := by
  rw [wireOfBytes, token, String.toList_ofList, Base64.decode_encode]
  simp only [Except.mapError, bind, Except.bind, Utf8.decode_encode, Json.Decoder.decodeChars, Json.Reading.ofChars_chars,
    Wire.decoder_toJson]
  rfl

/-- The document of a boundary is read as what is left of the boundary. -/
theorem ofWire_toWire (b : Boundary) : ofWire b.toWire = .ok b.carried := by
  simp only [ofWire, toWire, readValue, Value.ofText?_toText]
  rfl

/-! ## Tokens -/

/-- No symbol is blank. -/
theorem isBlank_of_isSymbol {c : Char} (h : Base64.IsSymbol c) : isBlank c = false := by
  rcases h with h | rfl | rfl
  · simp only [Char.isAlphanum, Char.isAlpha, Char.isUpper, Char.isLower, Char.isDigit, Bool.or_eq_true, Bool.and_eq_true,
      decide_eq_true_eq, UInt32.le_iff_toNat_le, ge_iff_le] at h
    have hupper : 'A'.val.toNat = 65 ∧ 'Z'.val.toNat = 90 := ⟨rfl, rfl⟩
    have hlower : 'a'.val.toNat = 97 ∧ 'z'.val.toNat = 122 := ⟨rfl, rfl⟩
    have hdigit : '0'.val.toNat = 48 ∧ '9'.val.toNat = 57 := ⟨rfl, rfl⟩
    have hrange : 48 ≤ c.val.toNat ∧ c.val.toNat ≤ 122 := by omega
    exact isBlank_of_visible (Nat.lt_of_lt_of_le (by decide) hrange.1) (Nat.lt_of_le_of_lt hrange.2 (by decide))
  · rfl
  · rfl

theorem isSymbol_of_mem_token {b : Boundary} {c : Char} (h : c ∈ b.token.toList) : Base64.IsSymbol c := by
  rw [token, String.toList_ofList] at h
  exact Base64.isSymbol_of_mem_encode h

theorem token_toList_ne_nil (b : Boundary) : b.token.toList ≠ [] := by
  have hchars : b.toWire.toJson.chars ≠ [] := List.cons_ne_nil _ _
  rw [token, String.toList_ofList]
  exact Base64.encode_ne_nil (Utf8.encode_ne_nil hchars)

/-- A token is read as what is left of the boundary, unless it is too long. -/
theorem ofToken_token (b : Boundary) : ofToken b.token =
    if b.token.utf8ByteSize ≤ maxTokenLength then .ok b.carried else .error (.tooLong b.token.utf8ByteSize maxTokenLength) := by
  have hlength : (Utf8.encode b.token.toList).length = b.token.utf8ByteSize := by
    rw [Utf8.length_encode, String.ofList_toList]
  have hne : Utf8.encode b.token.toList ≠ [] := Utf8.encode_ne_nil b.token_toList_ne_nil
  rw [ofToken, trimBlanks_eq_self fun c hc => isBlank_of_isSymbol (isSymbol_of_mem_token hc)]
  simp only [if_neg hne, hlength, wireOfBytes_token]
  by_cases h : b.token.utf8ByteSize ≤ maxTokenLength
  · rw [if_pos h, if_neg (Nat.not_lt.2 h)]
    exact ofWire_toWire b
  · rw [if_neg h, if_pos (Nat.lt_of_not_le h)]

/-- What is left of a boundary has the same token. -/
theorem token_carried (b : Boundary) : b.carried.token = b.token := by
  simp only [token, toWire, carried, Value.toText_carried, Value.kind_carried]

/-- Every boundary has a token made of symbols alone. Up to the length limit the token is read as what is left of the boundary,
which has the same token; a longer one is refused. What is left of the boundary has its instants cut to milliseconds and one NaN for
all of them exactly when there is no leap second inside a minute. -/
theorem token_roundTrip (b : Boundary) :
    b.token ≠ "" ∧ (∀ c ∈ b.token.toList, c.isAlphanum = true ∨ c = '-' ∨ c = '_') ∧
      ofToken b.token = (if b.token.utf8ByteSize ≤ maxTokenLength then .ok b.carried
        else .error (.tooLong b.token.utf8ByteSize maxTokenLength)) ∧
      b.carried.token = b.token ∧ (b.carried = b.cut ↔ b.IsCivil) := by
  refine ⟨?_, ?_, ofToken_token b, token_carried b, carried_eq_cut_iff⟩
  · intro hempty
    refine b.token_toList_ne_nil ?_
    rw [hempty]
    rfl
  · intro c hc
    exact isSymbol_of_mem_token hc

/-- The leap second after 23:56:04 is read as a part of the second 23:56:05. -/
theorem ofToken_token_leap :
    let leap : Instant := ⟨86164, 1333333333, by decide, by decide, by decide⟩
    let plain : Instant := ⟨86165, 333000000, by decide, by decide, by decide⟩
    ofToken (token ⟨.date leap, .text "1"⟩) = .ok ⟨.date plain, .text "1"⟩ ∧
      ofToken (token ⟨.date leap, .text "1"⟩) ≠ .ok (cut ⟨.date leap, .text "1"⟩) := by
  intro leap plain
  have hfits : (token ⟨.date leap, .text "1"⟩).utf8ByteSize ≤ maxTokenLength := by decide
  have hread : ofToken (token ⟨.date leap, .text "1"⟩) = .ok ⟨.date plain, .text "1"⟩ := by
    have hcarried : leap.carried = plain := by decide
    rw [ofToken_token, if_pos hfits, carried, Value.carried, Value.carried, hcarried]
  refine ⟨hread, ?_⟩
  rw [hread]
  decide

end Boundary

end Keyset
