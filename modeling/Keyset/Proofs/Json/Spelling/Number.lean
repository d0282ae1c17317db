import Keyset.Proofs.Json.Lexing

/-!
# The spelling of numbers

The grammar of numbers (`Numeral.IsWritten`), part by part from the last to the first. What the lexer reads as a number is written by
it, and what is written by it is read as one, up to a character that could not belong to it (`Numeral.Ends`). The phases of the lexer
are what the parts of the grammar leave to be read: `Lexer.NumberPhase.Completes`.
-/

namespace Keyset.Json

namespace Numeral

/-- One digit or more, and behind the last of them what a condition asks for. -/
def DigitsThen (rest : List Char → Prop) : List Char → Prop
  | [] => False
  | c :: cs => c.isDigit = true ∧ (rest cs ∨ DigitsThen rest cs)

/-- What stands behind the mark of an exponent: digits, with a sign or without one. -/
def IsPower : List Char → Prop
  | [] => False
  | c :: cs => (c = '+' ∨ c = '-') ∧ DigitsThen (· = []) cs ∨ DigitsThen (· = []) (c :: cs)

/-- What stands behind all other digits: nothing, or an exponent. -/
def IsExponent : List Char → Prop
  | [] => True
  | c :: cs => (c = 'e' ∨ c = 'E') ∧ IsPower cs

/-- What stands behind the whole digits: a point with digits, if there is one, and an exponent, if there is one. -/
def IsFraction : List Char → Prop
  | [] => True
  | c :: cs => c = '.' ∧ DigitsThen IsExponent cs ∨ IsExponent (c :: cs)

/-- A number without a sign. Its whole digits are a zero, or do not begin with one. -/
def IsUnsigned : List Char → Prop
  | [] => False
  | c :: cs => c = '0' ∧ IsFraction cs ∨ c ≠ '0' ∧ DigitsThen IsFraction (c :: cs)

/-- A number as it is written. -/
def IsWritten : List Char → Prop
  | [] => False
  | c :: cs => c = '-' ∧ IsUnsigned cs ∨ IsUnsigned (c :: cs)

/-- A text does not go on with what could belong to a number before it. -/
def Ends (rest : List Char) : Prop :=
  ∀ c ∈ rest.head?, c.isDigit = false ∧ c ≠ '.' ∧ c ≠ 'e' ∧ c ≠ 'E'

end Numeral

namespace Lexer

open Numeral

namespace NumberPhase

/-- What completes a number in a phase. -/
def Completes (phase : NumberPhase) (cs : List Char) : Prop :=
  match phase with
  | .minus => IsUnsigned cs
  | .zero => IsFraction cs
  | .whole => IsFraction cs ∨ DigitsThen IsFraction cs
  | .point => DigitsThen IsExponent cs
  | .fraction => IsExponent cs ∨ DigitsThen IsExponent cs
  | .mark => IsPower cs
  | .sign => DigitsThen (· = []) cs
  | .exponent => cs = [] ∨ DigitsThen (· = []) cs

theorem completes_nil {phase : NumberPhase} : phase.Completes [] ↔ phase.isComplete = true := by
  cases phase <;> simp [Completes, IsUnsigned, IsFraction, IsExponent, IsPower, DigitsThen, isComplete]

/-- A first character completes a number with what completes it in the next phase. -/
theorem completes_cons {phase : NumberPhase} {c : Char} {cs : List Char} :
    phase.Completes (c :: cs) ↔ ∃ next, phase.next? c = some next ∧ next.Completes cs := by
  cases phase with
  | minus =>
    by_cases hzero : c = '0'
    · simp [next?, Completes, IsUnsigned, hzero]
    · by_cases hdigit : c.isDigit = true <;> simp [next?, Completes, IsUnsigned, hzero, hdigit, DigitsThen]
  | zero =>
    by_cases hpoint : c = '.'
    · simp [next?, Completes, IsFraction, IsExponent, hpoint]
    · by_cases hexponent : c = 'e' ∨ c = 'E' <;> simp [next?, Completes, IsFraction, IsExponent, hpoint, hexponent]
  | whole =>
    by_cases hdigit : c.isDigit = true
    · have hpoint : c ≠ '.' := by
        rintro rfl
        cases hdigit
      have hexponent : ¬ (c = 'e' ∨ c = 'E') := by
        rintro (rfl | rfl) <;> cases hdigit
      simp [next?, Completes, IsFraction, IsExponent, DigitsThen, hdigit, hpoint, hexponent]
    · by_cases hpoint : c = '.'
      · simp [next?, Completes, IsFraction, IsExponent, DigitsThen, hpoint]
      · by_cases hexponent : c = 'e' ∨ c = 'E' <;>
          simp [next?, Completes, IsFraction, IsExponent, DigitsThen, hdigit, hpoint, hexponent]
  | point =>
    by_cases hdigit : c.isDigit = true <;> simp [next?, Completes, DigitsThen, hdigit]
  | fraction =>
    by_cases hdigit : c.isDigit = true
    · have hexponent : ¬ (c = 'e' ∨ c = 'E') := by
        rintro (rfl | rfl) <;> cases hdigit
      simp [next?, Completes, IsExponent, DigitsThen, hdigit, hexponent]
    · by_cases hexponent : c = 'e' ∨ c = 'E' <;> simp [next?, Completes, IsExponent, DigitsThen, hdigit, hexponent]
  | mark =>
    by_cases hsign : c = '+' ∨ c = '-'
    · have hdigit : c.isDigit = false := by
        rcases hsign with rfl | rfl <;> rfl
      simp [next?, Completes, IsPower, DigitsThen, hsign, hdigit]
    · by_cases hdigit : c.isDigit = true <;> simp [next?, Completes, IsPower, DigitsThen, hsign, hdigit]
  | sign =>
    by_cases hdigit : c.isDigit = true <;> simp [next?, Completes, DigitsThen, hdigit]
  | exponent =>
    by_cases hdigit : c.isDigit = true <;> simp [next?, Completes, DigitsThen, hdigit]

end NumberPhase

/-- A number ends before a character that does not continue it. -/
theorem step_number_end {phase : NumberPhase} (reversed : List Char) {c : Char} (hnext : phase.next? c = none)
    (hcomplete : phase.isComplete = true) (hzero : ¬ (phase = .zero ∧ c.isDigit = true)) :
    step (.number phase reversed) c = (.number (.ofChars reversed.reverse) :: (start c).1, (start c).2) := by
  have hgoes : ¬ (phase.isComplete = false ∨ phase = .zero ∧ c.isDigit = true) := by
    rw [hcomplete]
    exact not_or.2 ⟨Bool.noConfusion, hzero⟩
  simp only [step, hnext, if_neg hgoes, endNumber, if_pos hcomplete]
  rfl

/-- Elsewhere nothing is read any more behind a character that does not continue a number. -/
theorem step_number_broken {phase : NumberPhase} (reversed : List Char) {c : Char} (hnext : phase.next? c = none)
    (h : phase.isComplete = false ∨ phase = .zero ∧ c.isDigit = true) : step (.number phase reversed) c = ([], .broken) := by
  simp only [step, hnext, if_pos h]

/-- What completes a number is read up to where the number ends. -/
theorem scan_of_completes {phase : NumberPhase} {cs : List Char} (h : phase.Completes cs) (reversed : List Char) {rest : List Char}
    (hrest : Ends rest) :
    scan (.number phase reversed) (cs ++ rest) = after [.number (.ofChars (reversed.reverse ++ cs))] (scan .between rest) := by
  induction cs generalizing phase reversed with
  | nil =>
    have hcomplete := NumberPhase.completes_nil.1 h
    rw [List.nil_append, List.append_nil]
    cases rest with
    | nil => simp [scan, run, finish, after, endNumber, hcomplete]
    | cons c cs =>
      obtain ⟨hdigit, hpoint, hsmall, hcapital⟩ := hrest c rfl
      have hnext : phase.next? c = none := by
        cases phase <;> simp_all [NumberPhase.next?, NumberPhase.isComplete]
      have hzero : ¬ (phase = .zero ∧ c.isDigit = true) := by
        rw [hdigit]
        exact fun hcontra => Bool.noConfusion hcontra.2
      rw [scan_cons, scan_cons, after_after, step_number_end reversed hnext hcomplete hzero]
      rfl
  | cons c cs ih =>
    obtain ⟨next, hnext, hcompletes⟩ := NumberPhase.completes_cons.1 h
    have hstep : step (.number phase reversed) c = ([], .number next (c :: reversed)) := by
      simp only [step, hnext]
    rw [List.cons_append, scan_cons, hstep, after_nil, ih hcompletes (c :: reversed), List.reverse_cons, List.append_assoc,
      List.singleton_append]

/-- A number that is read to an end was completed, and ended there. -/
theorem exists_of_scan_number {phase : NumberPhase} {reversed cs : List Char} {lexemes : List Lexeme}
    (h : scan (.number phase reversed) cs = (lexemes, true)) :
    ∃ more rest others, cs = more ++ rest ∧ phase.Completes more ∧ Ends rest ∧
      lexemes = .number (.ofChars (reversed.reverse ++ more)) :: others ∧ scan .between rest = (others, true) := by
  induction cs generalizing phase reversed with
  | nil =>
    have hcomplete : phase.isComplete = true := congrArg Prod.snd h
    have hlexemes : endNumber phase reversed = lexemes := congrArg Prod.fst h
    refine ⟨[], [], [], rfl, NumberPhase.completes_nil.2 hcomplete, ?_, ?_, rfl⟩
    · intro c hc
      cases hc
    · rw [← hlexemes, endNumber, if_pos hcomplete, List.append_nil]
  | cons c cs ih =>
    rw [scan_cons] at h
    cases hnext : phase.next? c with
    | some next =>
      simp only [step, hnext, after_nil] at h
      obtain ⟨more, rest, others, rfl, hmore, hends, hlexemes, hscan⟩ := ih h
      refine ⟨c :: more, rest, others, rfl, NumberPhase.completes_cons.2 ⟨next, hnext, hmore⟩, hends, ?_, hscan⟩
      rw [hlexemes, List.reverse_cons, List.append_assoc, List.singleton_append]
    | none =>
      by_cases hbroken : phase.isComplete = false ∨ phase = .zero ∧ c.isDigit = true
      · rw [step_number_broken reversed hnext hbroken] at h
        have hended : (scan .broken cs).2 = true := congrArg Prod.snd h
        rw [scan_broken] at hended
        cases hended
      · obtain ⟨hcomplete, hzero⟩ := not_or.1 hbroken
        rw [Bool.not_eq_false] at hcomplete
        rw [step_number_end reversed hnext hcomplete hzero] at h
        have hended : (scan (start c).2 cs).2 = true := congrArg Prod.snd h
        refine ⟨[], c :: cs, (scan .between (c :: cs)).1, rfl, NumberPhase.completes_nil.2 hcomplete, ?_, ?_, ?_⟩
        · -- What could belong to a number continues it, or begins no lexeme.
          have hstart : start c ≠ ([], .broken) := by
            intro hstart
            rw [hstart, scan_broken] at hended
            cases hended
          have hdigit : c.isDigit = false := by
            rw [← Bool.not_eq_true]
            intro hdigit
            cases phase <;> simp_all [NumberPhase.next?, NumberPhase.isComplete]
          intro d hd
          cases hd
          refine ⟨hdigit, ?_, ?_, ?_⟩
          · rintro rfl
            exact hstart rfl
          · rintro rfl
            exact hstart rfl
          · rintro rfl
            exact hstart rfl
        · rw [List.append_nil, scan_cons]
          exact (congrArg Prod.fst h).symm
        · rw [scan_cons]
          exact Prod.ext rfl hended

theorem start_of_isDigit {c : Char} (h : c.isDigit = true) (hzero : c ≠ '0') : start c = ([], .number .whole [c]) := by
  unfold start
  split <;> simp_all

/-- A written number is read as the number. -/
theorem scan_number {front : List Char} (h : Numeral.IsWritten front) {rest : List Char} (hrest : Numeral.Ends rest) :
    scan .between (front ++ rest) = after [.number (.ofChars front)] (scan .between rest) := by
  cases front with
  | nil => exact h.elim
  | cons c cs =>
    rw [List.cons_append, scan_cons]
    rcases h with ⟨rfl, hunsigned⟩ | ⟨rfl, hfraction⟩ | ⟨hzero, hdigit, hdigits⟩
    · have hcompletes : NumberPhase.minus.Completes cs := hunsigned
      exact scan_of_completes hcompletes ['-'] hrest
    · have hcompletes : NumberPhase.zero.Completes cs := hfraction
      exact scan_of_completes hcompletes ['0'] hrest
    · have hcompletes : NumberPhase.whole.Completes cs := hdigits
      rw [step, start_of_isDigit hdigit hzero]
      exact scan_of_completes hcompletes [c] hrest

end Lexer

end Keyset.Json
