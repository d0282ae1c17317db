import Keyset.Proofs.Json.Decoding

/-!
# Documents that are cut

`Reading.ofChars_of_prefix`: the text of an object that is cut anywhere is no document. Its lexemes begin with a bracket that only
the last character of the text closes: before that a container is open (`Builder.State.IsInside`), and where a document is over nothing
may follow (`Builder.finish_foldl_of_finish`).
-/

namespace Keyset.Json

namespace Lexer

/-! ## The last character -/

theorem scan_append (s : State) (cs ds : List Char) : scan s (cs ++ ds) = after (run s cs).1 (scan (run s cs).2 ds) := by
  simp [scan, after, run_append]

/-- A closing bracket behind which a text may end gives out a lexeme. -/
theorem step_closing_ne_nil {s : State} (h : (finish (step s '\x7d').2).2 = true) : (step s '\x7d').1 ≠ [] := by
  cases s with
  | between => exact List.cons_ne_nil _ _
  | word rest value =>
    match rest with
    | [] => cases h
    | [last] =>
      by_cases hlast : '\x7d' = last
      · subst hlast
        exact List.cons_ne_nil _ _
      · simp [step, hlast, finish] at h
    | next :: other :: rest =>
      by_cases hnext : '\x7d' = next
      · subst hnext
        cases h
      · simp [step, hnext, finish] at h
  | number phase reversed =>
    cases phase with
    | zero | whole | fraction | exponent => exact List.append_ne_nil_of_right_ne_nil _ (List.cons_ne_nil _ _)
    | minus | point | mark | sign => cases h
  | text written => cases h
  | escape written => cases h
  | hex written left value => cases h
  | broken => cases h

/-- A text that ends with a closing bracket, and may end there, has a lexeme. -/
theorem scan_closing_ne_nil {s : State} {cs : List Char} (h : (scan s (cs ++ ['\x7d'])).2 = true) :
    (scan s (cs ++ ['\x7d'])).1 ≠ [] := by
  rw [scan_append, scan_cons] at h ⊢
  have hlexemes : (step (run s cs).2 '\x7d').1 ≠ [] := step_closing_ne_nil h
  simp [after, hlexemes]

end Lexer

namespace Builder

/-! ## Open containers -/

/-- A container is open, or no value is waited for any more. -/
inductive State.IsInside : State → Prop where
  | within (frame : Frame) (stack : List Frame) (stage : Stage) : IsInside ⟨frame :: stack, stage⟩
  | done (root : Reading) : IsInside ⟨[], .done root⟩
  | surplus (root : Reading) : IsInside ⟨[], .surplus root⟩
  | halted : IsInside ⟨[], .halted⟩

theorem isInside_halted (stack : List Frame) : State.IsInside ⟨stack, .halted⟩ := by
  cases stack with
  | nil => exact .halted
  | cons frame stack => exact .within frame stack .halted

/-- A value is the root, or stands in a container that stays open. -/
theorem isInside_put (value : Reading) (stack : List Frame) : (put value stack).IsInside := by
  unfold put
  split
  · exact .done value
  · exact .within _ _ _
  · exact .within _ _ _
  · exact .within _ _ _

/-- A container that is closed is a value, and anything else closes nothing. -/
theorem isInside_close (stack : List Frame) (lexeme : Lexeme) : (close stack lexeme).IsInside := by
  unfold close
  split
  · split
    · exact isInside_put _ _
    · exact isInside_halted _
  · split
    · exact isInside_put _ _
    · exact isInside_halted _
  · exact isInside_halted _

/-- What may start a value is one or opens a container. -/
theorem isInside_startValue (stack : List Frame) (lexeme : Lexeme) : (startValue stack lexeme).IsInside := by
  cases lexeme with
  | null | bool | number | text => exact isInside_put _ stack
  | openArray | openObject => exact .within _ stack _
  | closeArray | closeObject | comma | colon => exact isInside_halted stack

/-- A key stands in an object. -/
theorem isInside_startKey (stack : List Frame) (lexeme : Lexeme) : (startKey stack lexeme).IsInside := by
  unfold startKey
  split
  · split
    · exact .within _ _ _
    · exact isInside_halted _
  · exact isInside_halted _

/-- No lexeme leads out of the containers to a place where a value is waited for. -/
theorem isInside_step {s : State} (h : s.IsInside) (lexeme : Lexeme) : (step s lexeme).IsInside := by
  cases h with
  | within frame stack stage =>
    cases stage with
    | value => exact isInside_startValue _ lexeme
    | key => exact isInside_startKey _ lexeme
    | valueOrClose =>
      by_cases hclose : lexeme = .closeArray
      · simp only [step, if_pos hclose]
        exact isInside_close _ lexeme
      · simp only [step, if_neg hclose]
        exact isInside_startValue _ lexeme
    | keyOrClose =>
      by_cases hclose : lexeme = .closeObject
      · simp only [step, if_pos hclose]
        exact isInside_close _ lexeme
      · simp only [step, if_neg hclose]
        exact isInside_startKey _ lexeme
    | commaOrClose =>
      by_cases hcomma : lexeme = .comma
      · simp only [step, if_pos hcomma]
        cases frame <;> exact .within _ _ _
      · simp only [step, if_neg hcomma]
        exact isInside_close _ lexeme
    | colon | done | surplus | halted => exact .within _ _ _
  | done root => exact .surplus root
  | surplus root => exact .surplus root
  | halted => exact .halted

theorem isInside_foldl {s : State} (h : s.IsInside) (lexemes : List Lexeme) : (lexemes.foldl step s).IsInside := by
  induction lexemes generalizing s with
  | nil => exact h
  | cons lexeme lexemes ih => exact ih (isInside_step h lexeme)

/-! ## Ends of documents -/

/-- A number inside the containers completes no document. -/
theorem finish_step_number {s : State} (h : s.IsInside) (n : Numeral) : (finish (step s (.number n))).2 = false := by
  cases h with
  | within frame stack stage =>
    cases stage with
    | value | valueOrClose =>
      match frame with
      | .array items => rfl
      | .object members none => rfl
      | .object members (some key) => rfl
    | key | keyOrClose | colon | commaOrClose | done | surplus | halted => rfl
  | done root | surplus root => rfl
  | halted => rfl

end Builder

/-! ## Objects -/

/-- A text is a document when it ends where it may, and its lexemes are a document. -/
theorem Reading.ofChars_snd (cs : List Char) (whole : Bool) :
    (Reading.ofChars cs whole).2 =
      ((Builder.finish ((Lexer.scan .between cs).1.foldl Builder.step .initial)).2 && (Lexer.scan .between cs).2 && whole) :=
  rfl

/-- What begins with an opening bracket keeps to the containers. -/
theorem Builder.isInside_run (cs : List Char) :
    ((Lexer.run .between ('\x7b' :: cs)).1.foldl Builder.step .initial).IsInside :=
  Builder.isInside_foldl (.within (.object [] none) [] .keyOrClose) (Lexer.run .between cs).1

/-- A text that ends where its document is not whole is no document: at most a number is completed by the end of the text. -/
theorem Reading.ofChars_of_run {cs : List Char}
    (hinside : ((Lexer.run .between cs).1.foldl Builder.step .initial).IsInside)
    (hopen : (Builder.finish ((Lexer.run .between cs).1.foldl Builder.step .initial)).2 = false) (whole : Bool) :
    (Reading.ofChars cs whole).2 = false := by
  rw [Reading.ofChars_snd, Lexer.scan, List.foldl_append, Bool.and_eq_false_iff, Bool.and_eq_false_iff]
  left
  cases (Lexer.run .between cs).2 with
  | between =>
    left
    exact hopen
  | number phase reversed =>
    cases hcomplete : phase.isComplete with
    | true =>
      left
      simp only [Lexer.finish, Lexer.endNumber, hcomplete, if_true]
      exact Builder.finish_step_number hinside _
    | false =>
      right
      exact hcomplete
  | word | text | escape | hex | broken =>
    right
    rfl

/-- The text of an object that is cut is no document. -/
theorem Reading.ofChars_of_prefix {members : List (String × Json)} {cs : List Char} (h : cs <+: (Json.object members).chars)
    (hne : cs ≠ (Json.object members).chars) (whole : Bool) : (Reading.ofChars cs whole).2 = false := by
  -- What is missing ends with the closing bracket.
  obtain ⟨middle, hmiddle⟩ : ∃ middle, cs ++ (middle ++ ['\x7d']) = (Json.object members).chars := by
    rw [chars] at h hne ⊢
    rcases List.prefix_concat_iff.1 h with heq | ⟨middle, hmiddle⟩
    · exact absurd heq hne
    · exact ⟨middle, by rw [← hmiddle, List.append_assoc]⟩
  have hwhole : (Reading.ofChars (Json.object members).chars true).2 = true := by
    rw [Reading.ofChars_chars]
  rw [Reading.ofChars_snd, ← hmiddle, Lexer.scan_append, Bool.and_true, Bool.and_eq_true] at hwhole
  obtain ⟨hdone, hended⟩ := hwhole
  have hmore := Lexer.scan_closing_ne_nil hended
  rw [Lexer.after, List.foldl_append] at hdone
  cases cs with
  | nil => rfl
  | cons c cs =>
    have hfirst : c = '\x7b' := (List.cons.inj hmiddle).1
    subst hfirst
    refine Reading.ofChars_of_run (Builder.isInside_run cs) ?_ whole
    -- Were the document whole here, it would not be with the lexemes that are missing.
    rw [← Bool.not_eq_true]
    intro hfinish
    rw [Builder.finish_foldl_of_finish hfinish hmore] at hdone
    cases hdone

/-- No decoder accepts the text of an object that is cut. -/
theorem Decoder.decodeChars_of_prefix (decode : Decoder α) {members : List (String × Json)} {cs : List Char}
    (h : cs <+: (Json.object members).chars) (hne : cs ≠ (Json.object members).chars) (whole : Bool) :
    ∃ fault, decode.decodeChars cs whole = .error fault := by
  have hcut := Reading.ofChars_of_prefix h hne whole
  unfold decodeChars
  cases hdecode : decode (Reading.ofChars cs whole).1 with
  | error fault => exact ⟨fault, by simp only [hdecode]; rfl⟩
  | ok value => exact ⟨.malformed, by simp only [hdecode, hcut]; rfl⟩

end Keyset.Json
