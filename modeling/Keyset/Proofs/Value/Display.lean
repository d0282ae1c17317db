import Keyset.Proofs.Number.RoundTrip
import Keyset.Value

/-!
# Shown values

Where a shown value ends can be told from its characters, so values that are shown alike are the same, whatever else is shown behind
them: `Value.display_append_inj`. This is so of numbers, and of texts without apostrophes; an instant is shown as some text is, too.
-/

namespace Keyset

/-- A run of characters of one class, with a character of another class or nothing behind it, is told by the whole text. -/
theorem Text.append_inj_of_run {p : Char → Bool} {as bs r s : List Char} (has : ∀ c ∈ as, p c = true)
    (hbs : ∀ c ∈ bs, p c = true) (hr : ∀ c ∈ r.head?, p c = false) (hs : ∀ c ∈ s.head?, p c = false)
    (h : as ++ r = bs ++ s) : as = bs ∧ r = s := by
  induction as generalizing bs with
  | nil =>
    cases bs with
    | nil => exact ⟨rfl, h⟩
    | cons b bs =>
      rw [List.nil_append] at h
      rw [h] at hr
      have hb : p b = true := hbs b List.mem_cons_self
      rw [hr b rfl] at hb
      cases hb
  | cons a as ih =>
    cases bs with
    | nil =>
      rw [List.nil_append] at h
      rw [← h] at hs
      have ha : p a = true := has a List.mem_cons_self
      rw [hs a rfl] at ha
      cases ha
    | cons b bs =>
      obtain ⟨rfl, htail⟩ := List.cons.inj h
      obtain ⟨rfl, hrest⟩ := ih (List.forall_mem_of_forall_mem_cons has) (List.forall_mem_of_forall_mem_cons hbs) htail
      exact ⟨rfl, hrest⟩

namespace Number

/-- A character of which the text of a number may be made. -/
def isTextChar (c : Char) : Bool :=
  c.isAlphanum || c = '-' || c = '.'

theorem isTextChar_of_isDigit {c : Char} (h : c.isDigit = true) : isTextChar c = true := by
  simp [isTextChar, Char.isAlphanum, h]

/-- The text of a decimal is made of digits and a point. -/
theorem Scaled.isTextChar_of_mem_text {d : Scaled} {c : Char} (h : c ∈ d.text) : isTextChar c = true := by
  unfold Scaled.text at h
  split at h
  · rcases List.mem_append.1 h with h | h
    · exact isTextChar_of_isDigit (Decimal.isDigit_of_mem_digits h)
    · rw [List.eq_of_mem_replicate h]
      rfl
  · rcases List.mem_append.1 h with h | h
    · exact isTextChar_of_isDigit (Decimal.isDigit_of_mem_padded (List.mem_of_mem_take h))
    · rcases List.mem_cons.1 h with rfl | h
      · rfl
      · exact isTextChar_of_isDigit (Decimal.isDigit_of_mem_padded (List.mem_of_mem_drop h))

/-- The text of a number has neither blanks nor parentheses nor apostrophes. -/
theorem isTextChar_of_mem_chars {x : Number} {c : Char} (hx : x.isNaN = false) (h : c ∈ x.chars) : isTextChar c = true := by
  have hbody : ∀ c ∈ unsignedChars x.magnitude, isTextChar c = true := by
    unfold unsignedChars
    split
    · simp [isTextChar]
    · split
      · simp [isTextChar]
      · intro c hc
        exact Scaled.isTextChar_of_mem_text hc
  rw [chars_eq hx] at h
  split at h
  · rcases List.mem_cons.1 h with rfl | h
    · rfl
    · exact hbody c h
  · exact hbody c h

/-- Numbers with the same text are the same. -/
theorem chars_inj {x y : Number} (hx : x.isNaN = false) (hy : y.isNaN = false) (h : x.chars = y.chars) : x = y := by
  have htext : x.text = y.text := congrArg String.ofList h
  have hparse := parse?_text hx
  rw [htext, parse?_text hy] at hparse
  exact (Option.some.inj hparse).symm

end Number

namespace Value

/-- A value that is told by how it is shown: a text without apostrophes, or a number. -/
def IsPlain : Value → Prop
  | .text s => '\'' ∉ s.toList
  | .number x => x.isNaN = false
  | .date _ => False

/-- What may stand behind a shown value: nothing, a blank or a closing parenthesis. -/
def Ends (rest : List Char) : Prop :=
  ∀ c ∈ rest.head?, c = ' ' ∨ c = ')'

theorem ends_blank (rest : List Char) : Ends (' ' :: rest) := by
  simp [Ends]

/-- What may stand behind a shown value does not go on with a number. -/
theorem Ends.isTextChar_eq_false {rest : List Char} (h : Ends rest) : ∀ c ∈ rest.head?, Number.isTextChar c = false := by
  intro c hc
  rcases h c hc with rfl | rfl <;> decide

theorem display_text (s : String) : (text s).display.toList = '\'' :: (s.toList ++ ['\'']) := by
  simp [display]

theorem display_number (x : Number) : (number x).display.toList = x.chars := by
  simp [display, Number.text]

/-- No number is shown with an apostrophe in front. -/
theorem cons_ne_chars_append {x : Number} (hx : x.isNaN = false) {r s : List Char} (hs : Ends s) : '\'' :: r ≠ x.chars ++ s := by
  intro h
  cases hchars : x.chars with
  | nil =>
    rw [hchars, List.nil_append] at h
    rw [← h] at hs
    exact absurd (hs '\'' rfl) (by decide)
  | cons c cs =>
    rw [hchars] at h
    obtain ⟨rfl, -⟩ := List.cons.inj h
    exact absurd (Number.isTextChar_of_mem_chars hx (hchars ▸ List.mem_cons_self)) (by decide)

/-- Values that are shown alike are the same, and so is what stands behind them. -/
theorem display_append_inj {v w : Value} {r s : List Char} (hv : v.IsPlain) (hw : w.IsPlain) (hr : Ends r) (hs : Ends s)
    (h : v.display.toList ++ r = w.display.toList ++ s) : v = w ∧ r = s := by
  cases v with
  | date t => cases hv
  | text a =>
    cases w with
    | date t => cases hw
    | number y =>
      rw [display_text, display_number] at h
      exact absurd h (cons_ne_chars_append hw hs)
    | text b =>
      rw [display_text, display_text, List.cons_append, List.cons_append, List.append_assoc, List.append_assoc] at h
      have ha : ∀ c ∈ a.toList, decide (c ≠ '\'') = true := fun c hc => decide_eq_true (ne_of_mem_of_not_mem hc hv)
      have hb : ∀ c ∈ b.toList, decide (c ≠ '\'') = true := fun c hc => decide_eq_true (ne_of_mem_of_not_mem hc hw)
      -- The text ends at the first apostrophe behind the one that opens it.
      obtain ⟨hab, hrest⟩ := Text.append_inj_of_run ha hb (by simp) (by simp) (List.cons.inj h).2
      exact ⟨congrArg text (String.toList_inj.1 hab), (List.cons.inj hrest).2⟩
  | number x =>
    cases w with
    | date t => cases hw
    | text b =>
      rw [display_text, display_number] at h
      exact absurd h.symm (cons_ne_chars_append hv hr)
    | number y =>
      rw [display_number, display_number] at h
      obtain ⟨hxy, hrest⟩ := Text.append_inj_of_run (fun _ => Number.isTextChar_of_mem_chars hv)
        (fun _ => Number.isTextChar_of_mem_chars hw) hr.isTextChar_eq_false hs.isTextChar_eq_false h
      exact ⟨congrArg number (Number.chars_inj hv hw hxy), hrest⟩

end Value

end Keyset
