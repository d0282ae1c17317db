import Keyset.Proofs.Json.Spelling.Number
import Keyset.Proofs.Json.Spelling.Text

/-!
# The spelling of lexemes

How lexemes are written, apart from how they are read, with blanks anywhere between them (`Spelled`). A text is read as lexemes exactly
when it spells them: `Lexer.scan_eq_iff`.
-/

namespace Keyset.Json

/-- A character that may stand between lexemes. -/
def IsBlank (c : Char) : Prop :=
  c = ' ' ∨ c = '\t' ∨ c = '\n' ∨ c = '\r'

/-- How a lexeme that is no number is written. -/
inductive Lexeme.IsWritten : List Char → Lexeme → Prop where
  | openArray : IsWritten ['['] .openArray
  | closeArray : IsWritten [']'] .closeArray
  | openObject : IsWritten ['\x7b'] .openObject
  | closeObject : IsWritten ['\x7d'] .closeObject
  | comma : IsWritten [','] .comma
  | colon : IsWritten [':'] .colon
  | null : IsWritten ['n', 'u', 'l', 'l'] .null
  | true : IsWritten ['t', 'r', 'u', 'e'] (.bool Bool.true)
  | false : IsWritten ['f', 'a', 'l', 's', 'e'] (.bool Bool.false)
  | text {front : List Char} {glyphs : List Glyph} (quoted : Quoted front glyphs) :
      IsWritten ('"' :: front ++ ['"']) (.text ((Glyph.text? glyphs).map String.ofList))

/-- Lexemes written one after the other, with any blanks around them. A number ends where its characters cannot go on. -/
inductive Spelled : List Char → List Lexeme → Prop where
  | nil : Spelled [] []
  | blank {c : Char} {cs : List Char} {lexemes : List Lexeme} (isBlank : IsBlank c) (rest : Spelled cs lexemes) :
      Spelled (c :: cs) lexemes
  | number {front cs : List Char} {lexemes : List Lexeme} (isWritten : Numeral.IsWritten front) (ends : Numeral.Ends cs)
      (rest : Spelled cs lexemes) : Spelled (front ++ cs) (.number (.ofChars front) :: lexemes)
  | lexeme {front cs : List Char} {lexeme : Lexeme} {lexemes : List Lexeme} (isWritten : lexeme.IsWritten front)
      (rest : Spelled cs lexemes) : Spelled (front ++ cs) (lexeme :: lexemes)

namespace Lexer

/-- A written lexeme is read as the lexeme. -/
theorem scan_lexeme {front : List Char} {lexeme : Lexeme} (h : lexeme.IsWritten front) (rest : List Char) :
    scan .between (front ++ rest) = after [lexeme] (scan .between rest) := by
  cases h with
  | openArray | closeArray | openObject | closeObject | comma | colon => exact scan_cons .between _ rest
  | null | true | false => simp [scan_cons, step, start]
  | text quoted =>
    have hopen : ∀ cs, scan .between ('"' :: cs) = scan (.text ⟨some [], none⟩) cs := by
      intro cs
      rfl
    rw [List.append_assoc, List.cons_append, hopen, List.singleton_append, scan_quoted quoted, finish_foldl_take]
    rfl

/-- What spells lexemes is read as these. -/
theorem scan_of_spelled {cs : List Char} {lexemes : List Lexeme} (h : Spelled cs lexemes) : scan .between cs = (lexemes, true) := by
  induction h with
  | nil => rfl
  | blank isBlank rest ih =>
    rw [scan_cons, ← ih]
    rcases isBlank with rfl | rfl | rfl | rfl <;> rfl
  | number isWritten ends rest ih => rw [scan_number isWritten ends, ih, after, List.singleton_append]
  | lexeme isWritten rest ih => rw [scan_lexeme isWritten, ih, after, List.singleton_append]

/-- A word that is read to an end is written out. -/
theorem exists_of_scan_word {word : List Char} (hword : word ≠ []) {value : Lexeme} {cs : List Char} {lexemes : List Lexeme}
    (h : scan (.word word value) cs = (lexemes, true)) :
    ∃ rest others, cs = word ++ rest ∧ lexemes = value :: others ∧ scan .between rest = (others, true) := by
  induction word generalizing cs with
  | nil => exact absurd rfl hword
  | cons next word ih =>
    cases cs with
    | nil => exact absurd (congrArg Prod.snd h) Bool.false_ne_true
    | cons c cs =>
      rw [scan_cons] at h
      by_cases hnext : c = next
      · subst hnext
        cases word with
        | nil =>
          rw [step, if_pos rfl] at h
          obtain ⟨others, hlexemes, hothers⟩ := exists_of_after h
          exact ⟨cs, others, rfl, hlexemes, hothers⟩
        | cons letter word =>
          have hstep : step (.word (c :: letter :: word) value) c = ([], .word (letter :: word) value) := if_pos rfl
          rw [hstep, after_nil] at h
          obtain ⟨rest, others, rfl, hlexemes, hothers⟩ := ih (List.cons_ne_nil _ _) h
          exact ⟨rest, others, rfl, hlexemes, hothers⟩
      · have hstep : step (.word (next :: word) value) c = ([], .broken) := by
          cases word <;> exact if_neg hnext
        rw [hstep, after_nil] at h
        exact absurd h scan_broken_ne

/-- What a character between lexemes may be: a blank, a lexeme, what a lexeme begins with, or nothing that is read. -/
theorem start_cases (c : Char) :
    (IsBlank c ∧ start c = ([], .between)) ∨ (∃ lexeme, Lexeme.IsWritten [c] lexeme ∧ start c = ([lexeme], .between)) ∨
      (c = '"' ∧ start c = ([], .text ⟨some [], none⟩)) ∨
      (∃ word value, word ≠ [] ∧ Lexeme.IsWritten (c :: word) value ∧ start c = ([], .word word value)) ∨
      (∃ phase, (∀ more, phase.Completes more → Numeral.IsWritten (c :: more)) ∧ start c = ([], .number phase [c])) ∨
      start c = ([], .broken) := by
  unfold start
  split
  · exact .inl ⟨.inl rfl, rfl⟩
  · exact .inl ⟨.inr (.inl rfl), rfl⟩
  · exact .inl ⟨.inr (.inr (.inl rfl)), rfl⟩
  · exact .inl ⟨.inr (.inr (.inr rfl)), rfl⟩
  · exact .inr (.inl ⟨.openArray, .openArray, rfl⟩)
  · exact .inr (.inl ⟨.closeArray, .closeArray, rfl⟩)
  · exact .inr (.inl ⟨.openObject, .openObject, rfl⟩)
  · exact .inr (.inl ⟨.closeObject, .closeObject, rfl⟩)
  · exact .inr (.inl ⟨.comma, .comma, rfl⟩)
  · exact .inr (.inl ⟨.colon, .colon, rfl⟩)
  · exact .inr (.inr (.inl ⟨rfl, rfl⟩))
  · exact .inr (.inr (.inr (.inl ⟨_, .null, List.cons_ne_nil _ _, .null, rfl⟩)))
  · exact .inr (.inr (.inr (.inl ⟨_, .bool true, List.cons_ne_nil _ _, .true, rfl⟩)))
  · exact .inr (.inr (.inr (.inl ⟨_, .bool false, List.cons_ne_nil _ _, .false, rfl⟩)))
  · exact .inr (.inr (.inr (.inr (.inl ⟨.minus, fun more hmore => .inl ⟨rfl, hmore⟩, rfl⟩))))
  · exact .inr (.inr (.inr (.inr (.inl ⟨.zero, fun more hmore => .inr (.inl ⟨rfl, hmore⟩), rfl⟩))))
  · rename_i hzero
    refine .inr (.inr (.inr (.inr ?_)))
    by_cases hdigit : c.isDigit = true
    · exact .inl ⟨.whole, fun more hmore => .inr (.inr ⟨hzero, hdigit, hmore⟩), if_pos hdigit⟩
    · exact .inr (if_neg hdigit)

/-- What is read to an end spells the lexemes. -/
theorem spelled_of_scan {cs : List Char} {lexemes : List Lexeme} (h : scan .between cs = (lexemes, true)) : Spelled cs lexemes := by
  induction hn : cs.length using Nat.strongRecOn generalizing cs lexemes with
  | ind n ih =>
    cases cs with
    | nil =>
      have hlexemes : [] = lexemes := congrArg Prod.fst h
      rw [← hlexemes]
      exact .nil
    | cons c cs =>
      rw [List.length_cons] at hn
      rw [scan_cons, step] at h
      rcases start_cases c with ⟨hblank, hstart⟩ | ⟨lexeme, hwritten, hstart⟩ | ⟨rfl, hstart⟩ | ⟨word, value, hword, hwritten, hstart⟩ |
        ⟨phase, hnumber, hstart⟩ | hstart
      · rw [hstart, after_nil] at h
        exact .blank hblank (ih cs.length (by omega) h rfl)
      · rw [hstart] at h
        obtain ⟨others, rfl, hothers⟩ := exists_of_after h
        exact .lexeme hwritten (ih cs.length (by omega) hothers rfl)
      · rw [hstart, after_nil] at h
        obtain ⟨front, glyphs, rest, others, rfl, hquoted, rfl, hothers⟩ := exists_of_scan_text h
        rw [List.length_append, List.length_cons] at hn
        have hspelled := Spelled.lexeme (.text hquoted) (ih rest.length (by omega) hothers rfl)
        rw [List.append_assoc, List.cons_append, List.singleton_append] at hspelled
        rw [finish_foldl_take]
        exact hspelled
      · rw [hstart, after_nil] at h
        obtain ⟨rest, others, rfl, rfl, hothers⟩ := exists_of_scan_word hword h
        rw [List.length_append] at hn
        exact .lexeme hwritten (ih rest.length (by omega) hothers rfl)
      · rw [hstart, after_nil] at h
        obtain ⟨more, rest, others, rfl, hmore, hends, rfl, hothers⟩ := exists_of_scan_number h
        rw [List.length_append] at hn
        exact .number (hnumber more hmore) hends (ih rest.length (by omega) hothers rfl)
      · rw [hstart, after_nil] at h
        exact absurd h scan_broken_ne

/-- A text is read as lexemes exactly when it spells them. -/
theorem scan_eq_iff {cs : List Char} {lexemes : List Lexeme} : scan .between cs = (lexemes, true) ↔ Spelled cs lexemes :=
  ⟨spelled_of_scan, scan_of_spelled⟩

end Lexer

end Keyset.Json
