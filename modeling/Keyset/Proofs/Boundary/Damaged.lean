import Keyset.Proofs.Boundary.RoundTrip
import Keyset.Proofs.Json.Cut
import Keyset.Proofs.Text.Base64Strict

/-!
# Tokens that are damaged

`Boundary.ofToken_damaged`: a token that is cut is refused, and so is a text with a character outside the alphabet. Each layer keeps
a cut: the symbols that are left are those of the first bytes, the first bytes are those of the first characters, and the document
that these begin is not closed. So the values of a boundary are never looked at.
-/

namespace Keyset.Boundary

/-! ## Bytes -/

/-- Bytes that are no base64 text write no boundary. -/
theorem wireOfBytes_of_fault {bytes : List UInt8} {fault : Base64.Fault} (h : Base64.decode bytes = .error fault) :
    wireOfBytes bytes = .error (.encoding fault) := by
  rw [wireOfBytes, h]
  rfl

/-- The bytes of a text with a character outside the alphabet write no boundary. -/
theorem wireOfBytes_of_not_isSymbol {cs : List Char} {c : Char} (hc : c ∈ cs) (hsymbol : ¬ Base64.IsSymbol c) :
    ∃ fault, wireOfBytes (Utf8.encode cs) = .error (.encoding fault) := by
  cases hdecode : Base64.decode (Utf8.encode cs) with
  | error fault => exact ⟨fault, wireOfBytes_of_fault hdecode⟩
  | ok payload =>
    have hcs : cs = Base64.encode payload := Utf8.encode_inj (Base64.decode_eq_ok_iff.1 hdecode)
    rw [hcs] at hc
    exact absurd (Base64.isSymbol_of_mem_encode hc) hsymbol

/-- The bytes of a token that is cut write no boundary, whether the cut shows in the last symbols or in the document. -/
theorem wireOfBytes_of_prefix {b : Boundary} {cs : List Char} (h : cs <+: b.token.toList) (hne : cs ≠ b.token.toList) :
    (∃ fault, wireOfBytes (Utf8.encode cs) = .error (.encoding fault)) ∨
      ∃ fault, wireOfBytes (Utf8.encode cs) = .error (.payload fault) := by
  cases hdecode : Base64.decode (Utf8.encode cs) with
  | error fault => exact .inl ⟨fault, wireOfBytes_of_fault hdecode⟩
  | ok payload =>
    right
    have hcs : cs = Base64.encode payload := Utf8.encode_inj (Base64.decode_eq_ok_iff.1 hdecode)
    rw [hcs, token, String.toList_ofList] at h hne
    have hbytes : payload ≠ Utf8.encode b.toWire.toJson.chars := by
      rintro rfl
      exact hne rfl
    obtain ⟨hchars, hcut⟩ := Utf8.decode_of_prefix (Base64.prefix_of_encode_prefix h) hbytes
    obtain ⟨fault, hfault⟩ := Wire.decoder.decodeChars_of_prefix hchars hcut (Utf8.decode payload).2
    refine ⟨fault, ?_⟩
    rw [wireOfBytes, hdecode]
    simp only [Except.mapError, bind, Except.bind, hfault]

/-! ## Texts -/

/-- A text that is too long is not looked at. -/
theorem ofToken_of_long {token : String} (h : maxTokenLength < (Utf8.encode (trimBlanks token.toList)).length) :
    ofToken token = .error (.tooLong (Utf8.encode (trimBlanks token.toList)).length maxTokenLength) := by
  have hne : Utf8.encode (trimBlanks token.toList) ≠ [] := List.ne_nil_of_length_pos (Nat.zero_lt_of_lt h)
  simp only [ofToken, if_neg hne, if_pos h]

/-- What is wrong with the bytes is wrong with a text that is looked at. -/
theorem ofToken_of_fault {token : String} {e : TokenError} (hne : trimBlanks token.toList ≠ [])
    (hlength : (Utf8.encode (trimBlanks token.toList)).length ≤ maxTokenLength)
    (h : wireOfBytes (Utf8.encode (trimBlanks token.toList)) = .error e) : ofToken token = .error e := by
  simp only [ofToken, if_neg (Utf8.encode_ne_nil hne), if_neg (Nat.not_lt.2 hlength), h]
  rfl

/-- A token that is cut is refused: as empty or too long when it is, else for its symbols or its document. -/
theorem ofToken_of_prefix {b : Boundary} {s : String} (h : s.toList <+: b.token.toList) (hne : s ≠ b.token) :
    if s = "" then ofToken s = .error .empty
    else if maxTokenLength < s.utf8ByteSize then ofToken s = .error (.tooLong s.utf8ByteSize maxTokenLength)
    else (∃ fault, ofToken s = .error (.encoding fault)) ∨ ∃ fault, ofToken s = .error (.payload fault) := by
  have htrim : trimBlanks s.toList = s.toList := by
    refine trimBlanks_eq_self ?_
    intro c hc
    exact isBlank_of_isSymbol (isSymbol_of_mem_token (h.subset hc))
  have hsize : (Utf8.encode (trimBlanks s.toList)).length = s.utf8ByteSize := by
    rw [htrim, Utf8.length_encode, String.ofList_toList]
  by_cases hempty : s = ""
  · rw [if_pos hempty, hempty]
    rfl
  rw [if_neg hempty]
  by_cases hlong : maxTokenLength < s.utf8ByteSize
  · rw [if_pos hlong, ← hsize]
    rw [← hsize] at hlong
    exact ofToken_of_long hlong
  · rw [if_neg hlong]
    rw [← hsize, Nat.not_lt] at hlong
    have hchars : trimBlanks s.toList ≠ [] := by
      intro hnil
      rw [htrim] at hnil
      exact hempty (String.toList_inj.1 hnil)
    have hpart : trimBlanks s.toList ≠ b.token.toList := by
      intro heq
      rw [htrim] at heq
      exact hne (String.toList_inj.1 heq)
    rw [← htrim] at h
    rcases wireOfBytes_of_prefix h hpart with ⟨fault, hfault⟩ | ⟨fault, hfault⟩
    · exact .inl ⟨fault, ofToken_of_fault hchars hlong hfault⟩
    · exact .inr ⟨fault, ofToken_of_fault hchars hlong hfault⟩

/-- A token that is cut is refused, and never for one of its values. A text with a character outside the alphabet between its blanks,
if it is not too long, is refused for its symbols. -/
theorem ofToken_damaged (s : String) :
    (∀ b : Boundary, s.toList <+: b.token.toList → s ≠ b.token →
      if s = "" then ofToken s = .error .empty
      else if maxTokenLength < s.utf8ByteSize then ofToken s = .error (.tooLong s.utf8ByteSize maxTokenLength)
      else (∃ fault, ofToken s = .error (.encoding fault)) ∨ ∃ fault, ofToken s = .error (.payload fault)) ∧
    (∀ c ∈ trimBlanks s.toList, ¬ (c.isAlphanum = true ∨ c = '-' ∨ c = '_') →
      (Utf8.encode (trimBlanks s.toList)).length ≤ maxTokenLength → ∃ fault, ofToken s = .error (.encoding fault)) := by
  constructor
  · intro b h hne
    exact ofToken_of_prefix h hne
  · intro c hc hsymbol hlength
    obtain ⟨fault, hfault⟩ := wireOfBytes_of_not_isSymbol hc hsymbol
    exact ⟨fault, ofToken_of_fault (List.ne_nil_of_mem hc) hlength hfault⟩

/-- The token of a sonnet, cut behind its third symbol, and a text with an equals sign between its blanks. -/
theorem ofToken_damaged_sonnet :
    ((∃ fault, ofToken "eyJ" = .error (.encoding fault)) ∨ ∃ fault, ofToken "eyJ" = .error (.payload fault)) ∧
      ∃ fault, ofToken " eyJ2= " = .error (.encoding fault) := by
  have hcut := (ofToken_damaged "eyJ").1 ⟨.text "Ozymandias", .text "1"⟩ (by decide +kernel) (by decide +kernel)
  rw [if_neg (by decide), if_neg (by decide)] at hcut
  exact ⟨hcut, (ofToken_damaged " eyJ2= ").2 '=' (by decide +kernel) (by decide) (by decide +kernel)⟩

end Keyset.Boundary
