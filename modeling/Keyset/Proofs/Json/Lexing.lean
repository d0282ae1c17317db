import Keyset.Json.Lexeme

/-!
# Reading whole texts

What the lexer reads of a whole text from a state (`Lexer.scan`): the lexemes, and whether the text may end where it does.
-/

namespace Keyset.Json.Lexer

/-- What is read of a whole text from a state: its lexemes, and whether it may end where it does. -/
def scan (s : State) (cs : List Char) : List Lexeme × Bool :=
  ((run s cs).1 ++ (finish (run s cs).2).1, (finish (run s cs).2).2)

/-- Lexemes in front of what is read of a text. -/
def after (front : List Lexeme) (r : List Lexeme × Bool) : List Lexeme × Bool :=
  (front ++ r.1, r.2)

@[simp] theorem after_nil (r : List Lexeme × Bool) : after [] r = r :=
  rfl

@[simp] theorem after_after (front middle : List Lexeme) (r : List Lexeme × Bool) :
    after front (after middle r) = after (front ++ middle) r := by
  simp [after, List.append_assoc]

theorem scan_cons (s : State) (c : Char) (cs : List Char) :
    scan s (c :: cs) = after (step s c).1 (scan (step s c).2 cs) := by
  simp [scan, after, run, List.append_assoc]

/-- Where nothing is read any more a text may not end. -/
theorem scan_broken (cs : List Char) : (scan .broken cs).2 = false := by
  induction cs with
  | nil => rfl
  | cons c cs ih => exact ih

theorem scan_broken_ne {cs : List Char} {lexemes : List Lexeme} : scan .broken cs ≠ (lexemes, true) := by
  intro h
  have hended := scan_broken cs
  rw [h] at hended
  cases hended

/-- Behind lexemes in front the others are read to an end. -/
theorem exists_of_after {front lexemes : List Lexeme} {r : List Lexeme × Bool} (h : after front r = (lexemes, true)) :
    ∃ others, lexemes = front ++ others ∧ r = (others, true) := by
  have hended : r.2 = true := congrArg Prod.snd h
  exact ⟨r.1, (congrArg Prod.fst h).symm, Prod.ext rfl hended⟩

end Keyset.Json.Lexer
