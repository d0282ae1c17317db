import Keyset.Json.Basic
import Keyset.Proofs.Json.Grammar

/-!
# Documents are read back

The text that is written of a document spells it (`spelled_chars`): each number by the grammar, each character between quotes as it is
or escaped. So what is read of the text is the document, with every member and every item in its place and every container closed:
`Reading.ofChars_chars`.
-/

namespace Keyset.Json

/-! ## Documents as they are read -/

/-- Induction over documents: a container has what all that it holds has. -/
theorem induction {motive : Json → Prop} (null : motive .null) (bool : ∀ b, motive (.bool b))
    (number : ∀ n, motive (.number n)) (text : ∀ s, motive (.text s))
    (array : ∀ items, (∀ item ∈ items, motive item) → motive (.array items))
    (object : ∀ members, (∀ member ∈ members, motive member.2) → motive (.object members)) (json : Json) : motive json :=
  @Json.rec motive (fun items => ∀ item ∈ items, motive item) (fun members => ∀ member ∈ members, motive member.2)
    (fun member => motive member.2) null bool number text array object
    (fun _ hitem => nomatch hitem)
    (fun _ _ hhead htail => List.forall_mem_cons.2 ⟨hhead, htail⟩)
    (fun _ hmember => nomatch hmember)
    (fun _ _ hhead htail => List.forall_mem_cons.2 ⟨hhead, htail⟩)
    (fun _ _ hvalue => hvalue) json

mutual

/-- A document as it is read when nothing of it is lost. -/
def reading : Json → Reading
  | .null => .null
  | .bool b => .bool b
  | .number n => .number (.ofChars (Decimal.ofInt n))
  | .text s => .text (some s)
  | .array items => .array (itemReadings items) .closed
  | .object members => .object (memberReadings members) .closed

/-- The items of an array as they are read. -/
def itemReadings : List Json → List Reading
  | [] => []
  | item :: items => item.reading :: itemReadings items

/-- The members of an object as they are read. -/
def memberReadings : List (String × Json) → List Member
  | [] => []
  | (key, value) :: members => (some key, value.reading) :: memberReadings members

end

theorem itemReadings_eq_map (items : List Json) : itemReadings items = items.map reading := by
  induction items with
  | nil => rfl
  | cons item items ih => rw [itemReadings, ih, List.map_cons]

/-- The readings of the members, one by one. -/
theorem memberReadings_eq_map (members : List (String × Json)) :
    memberReadings members = members.map fun member => (some member.1, member.2.reading) := by
  induction members with
  | nil => rfl
  | cons member members ih => rw [memberReadings, ih, List.map_cons]

/-- Nothing of a document is lost. -/
theorem isWhole_reading (json : Json) : json.reading.IsWhole := by
  induction json using Json.induction with
  | null => exact .null
  | bool b => exact .bool b
  | number n => exact .number _
  | text s => exact .text _
  | array items ih =>
    rw [reading, itemReadings_eq_map]
    exact .array (List.forall_mem_map.2 ih)
  | object members ih =>
    rw [reading, memberReadings_eq_map]
    exact .object (List.forall_mem_map.2 ih)

/-! ## Numbers -/

namespace Numeral

/-- The digits of a positive number start with a digit that is not zero. -/
theorem exists_digits_eq_cons {n : Nat} (h : 0 < n) : ∃ d ds, Decimal.digits n = d :: ds ∧ d ≠ '0' := by
  induction n using Nat.strongRecOn with
  | ind n ih =>
    by_cases hn : n < 10
    · have hdigit : ∀ k < 10, 0 < k → k.digitChar ≠ '0' := by decide
      exact ⟨n.digitChar, [], Nat.toDigits_of_lt_base hn, hdigit n hn h⟩
    · obtain ⟨d, ds, hds, hd⟩ := ih (n / 10) (by omega) (by omega)
      refine ⟨d, ds ++ [(n % 10).digitChar], ?_, hd⟩
      rw [Decimal.digits, Nat.toDigits_of_base_le (by decide) (by omega)]
      rw [Decimal.digits] at hds
      rw [hds, List.cons_append]

/-- Some digits are written as such. -/
theorem digitsThen_of_isDigit {rest : List Char → Prop} (hrest : rest []) {ds : List Char} (hne : ds ≠ [])
    (h : ∀ c ∈ ds, c.isDigit = true) : DigitsThen rest ds := by
  induction ds with
  | nil => exact absurd rfl hne
  | cons d ds ih =>
    obtain ⟨hd, hds⟩ := List.forall_mem_cons.1 h
    refine ⟨hd, ?_⟩
    cases ds with
    | nil => exact .inl hrest
    | cons next ds => exact .inr (ih (List.cons_ne_nil _ _) hds)

/-- The digits of a number are a number without a sign. -/
theorem isUnsigned_digits (n : Nat) : IsUnsigned (Decimal.digits n) := by
  rcases Nat.eq_zero_or_pos n with rfl | h
  · exact .inl ⟨rfl, trivial⟩
  obtain ⟨d, ds, hds, hd⟩ := exists_digits_eq_cons h
  have hdigits : ∀ c ∈ d :: ds, c.isDigit = true := fun c hc => Decimal.isDigit_of_mem_digits (hds ▸ hc)
  rw [hds]
  exact .inr ⟨hd, digitsThen_of_isDigit trivial (List.cons_ne_nil _ _) hdigits⟩

/-- An integer is written by the grammar. -/
theorem isWritten_ofInt (n : Int) : IsWritten (Decimal.ofInt n) := by
  have hdigits := isUnsigned_digits n.natAbs
  rw [Decimal.ofInt]
  split
  · exact .inl ⟨rfl, hdigits⟩
  · cases hds : Decimal.digits n.natAbs with
    | nil => exact absurd hds (Decimal.digits_ne_nil _)
    | cons d ds => exact .inr (hds ▸ hdigits)

theorem ends_nil : Ends [] := by
  intro c hc
  cases hc

theorem ends_cons {c : Char} {cs : List Char} (h : c = ',' ∨ c = ']' ∨ c = '\x7d') : Ends (c :: cs) := by
  intro d hd
  cases hd
  rcases h with rfl | rfl | rfl <;> decide

end Numeral

/-! ## Texts -/

theorem hexDigit?_hexDigit {n : Nat} (h : n < 16) : Lexer.hexDigit? (hexDigit n) = some n := by
  revert n
  decide

/-- The escape of a character is a glyph for it. -/
theorem Glyph.exists_isWritten_escape (c : Char) :
    ∃ glyph : Glyph, glyph.IsWritten (escape c) ∧ ∀ rest, text? (glyph :: rest) = (text? rest).map (c :: ·) := by
  have hletter : ∀ e, Lexer.unescape? e = some c →
      ∃ glyph : Glyph, glyph.IsWritten ['\\', e] ∧ ∀ rest, text? (glyph :: rest) = (text? rest).map (c :: ·) :=
    fun e he => ⟨.char c, .letter he, fun _ => rfl⟩
  unfold escape
  split
  · subst_vars
    exact hletter _ rfl
  split
  · subst_vars
    exact hletter _ rfl
  split
  · subst_vars
    exact hletter _ rfl
  split
  · subst_vars
    exact hletter _ rfl
  split
  · subst_vars
    exact hletter _ rfl
  split
  · subst_vars
    exact hletter _ rfl
  split
  · subst_vars
    exact hletter _ rfl
  split
  · rename_i hcontrol
    have hzero : Lexer.hexDigit? '0' = some 0 := rfl
    have hhigh := hexDigit?_hexDigit (n := c.toNat / 16) (by omega)
    have hlow := hexDigit?_hexDigit (n := c.toNat % 16) (by omega)
    have hcode : 16 * (16 * (16 * 0 + 0) + c.toNat / 16) + c.toNat % 16 = c.toNat := by omega
    have halone : ¬ (IsHigh c.toNat ∨ IsLow c.toNat) := by
      rw [IsHigh, IsLow]
      omega
    have hwritten := IsWritten.unit hzero hzero hhigh hlow
    rw [hcode] at hwritten
    refine ⟨.unit c.toNat, hwritten, ?_⟩
    intro rest
    rw [text?_unit halone, Char.ofNat_toNat]
  · rename_i hquote hbackslash _ _ _ _ _ hcontrol
    exact ⟨.char c, .plain hquote hbackslash (Nat.not_lt.1 hcontrol), fun _ => rfl⟩

/-- Characters that are escaped one by one are quoted. -/
theorem exists_quoted_escape (cs : List Char) :
    ∃ glyphs, Quoted (cs.flatMap escape) glyphs ∧ Glyph.text? glyphs = some cs := by
  induction cs with
  | nil => exact ⟨[], .nil, rfl⟩
  | cons c cs ih =>
    obtain ⟨glyph, hwritten, htext⟩ := Glyph.exists_isWritten_escape c
    obtain ⟨glyphs, hquoted, hglyphs⟩ := ih
    refine ⟨glyph :: glyphs, .cons hwritten hquoted, ?_⟩
    rw [htext, hglyphs]
    rfl

/-- A text in quotes spells the text. -/
theorem spelled_quote (s : String) {rest : List Char} {lexemes : List Lexeme} (h : Spelled rest lexemes) :
    Spelled (quote s ++ rest) (.text (some s) :: lexemes) := by
  obtain ⟨glyphs, hquoted, hglyphs⟩ := exists_quoted_escape s.toList
  have hspelled := Spelled.lexeme (.text hquoted) h
  rw [hglyphs, Option.map_some, String.ofList_toList] at hspelled
  exact hspelled

/-! ## Documents -/

/-- Texts with commas between them spell what they spell one after the other. -/
theorem spelled_intercalate {α : Type} {write : α → List Char} {read : α → List Lexeme} {xs : List α}
    (hspelled : ∀ x ∈ xs, ∀ rest lexemes, Numeral.Ends rest → Spelled rest lexemes → Spelled (write x ++ rest) (read x ++ lexemes))
    {rest : List Char} {lexemes : List Lexeme} (hends : Numeral.Ends rest) (h : Spelled rest lexemes) :
    Spelled ([','].intercalate (xs.map write) ++ rest) ([.comma].intercalate (xs.map read) ++ lexemes) := by
  induction xs with
  | nil => exact h
  | cons x xs ih =>
    obtain ⟨hx, hxs⟩ := List.forall_mem_cons.1 hspelled
    cases xs with
    | nil =>
      simp only [List.map_cons, List.map_nil, List.intercalate_singleton]
      exact hx rest lexemes hends h
    | cons y ys =>
      have hrest := hx _ _ (Numeral.ends_cons (.inl rfl)) (.lexeme .comma (ih hxs))
      simp only [List.map_cons, List.intercalate_cons_cons, List.append_assoc, List.cons_append] at hrest ⊢
      exact hrest

/-- The text of a document spells the document, before anything that does not belong to a number. -/
theorem spelled_chars (json : Json) {rest : List Char} {lexemes : List Lexeme} (hends : Numeral.Ends rest) (h : Spelled rest lexemes) :
    Spelled (json.chars ++ rest) (json.reading.lexemes ++ lexemes) := by
  induction json using Json.induction generalizing rest lexemes with
  | null => exact .lexeme .null h
  | bool b =>
    cases b with
    | true => exact .lexeme .true h
    | false => exact .lexeme .false h
  | number n => exact .number (Numeral.isWritten_ofInt n) hends h
  | text s => exact spelled_quote s h
  | array items ih =>
    have hitems : Spelled ([','].intercalate (items.map chars) ++ ']' :: rest)
        ([.comma].intercalate (items.map fun item => item.reading.lexemes) ++ .closeArray :: lexemes) :=
      spelled_intercalate (fun item hitem _ _ => ih item hitem) (Numeral.ends_cons (.inr (.inl rfl))) (.lexeme .closeArray h)
    rw [chars, reading, Reading.lexemes, itemChars_eq_map, itemReadings_eq_map, Reading.itemLexemes_eq_map, List.map_map,
      List.append_assoc, List.append_assoc]
    have hopen := Spelled.lexeme .openArray hitems
    exact hopen
  | object members ih =>
    have hmember : ∀ member ∈ members, ∀ rest lexemes, Numeral.Ends rest → Spelled rest lexemes →
        Spelled ((quote member.1 ++ ':' :: member.2.chars) ++ rest)
          ((.text (some member.1) :: .colon :: member.2.reading.lexemes) ++ lexemes) := by
      intro member hmember rest lexemes hends h
      rw [List.append_assoc]
      have hcolon := Spelled.lexeme .colon (ih member hmember hends h)
      exact spelled_quote member.1 hcolon
    have hmembers := spelled_intercalate hmember (Numeral.ends_cons (.inr (.inr rfl))) (.lexeme .closeObject h)
    rw [chars, reading, Reading.lexemes, memberChars_eq_map, memberReadings_eq_map, Reading.memberLexemes_eq_map, List.map_map,
      List.append_assoc, List.append_assoc]
    have hopen := Spelled.lexeme .openObject hmembers
    exact hopen

/-- What is read of the text of a document is the document. -/
theorem Reading.ofChars_chars (json : Json) (whole : Bool) : Reading.ofChars json.chars whole = (json.reading, whole) := by
  have hspelled := spelled_chars json Numeral.ends_nil .nil
  rw [List.append_nil, List.append_nil] at hspelled
  exact ofChars_of_isSpelled ⟨json.isWhole_reading, hspelled⟩ whole

end Keyset.Json
