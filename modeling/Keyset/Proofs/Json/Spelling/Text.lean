import Keyset.Proofs.Json.Lexing

/-!
# The spelling of texts

What stands between quotes is characters, by themselves or escaped, and 16-bit units by their number (`Glyph`). The lexer reads them as
their text (`Lexer.scan_quoted`), and reads nothing else between quotes (`Lexer.exists_of_scan_text`).
-/

namespace Keyset.Json

/-- What stands between quotes one after the other: characters, and 16-bit units by their number. -/
inductive Glyph where
  | char (c : Char)
  | unit (n : Nat)

namespace Glyph

/-- How a character is written, as it is or by a letter, and a unit by four hexadecimal digits. -/
inductive IsWritten : List Char → Glyph → Prop where
  | plain {c : Char} (ne_quote : c ≠ '"') (ne_backslash : c ≠ '\\') (not_control : 0x20 ≤ c.toNat) : IsWritten [c] (.char c)
  | letter {e c : Char} (unescape : Lexer.unescape? e = some c) : IsWritten ['\\', e] (.char c)
  | unit {a b c d : Char} {w x y z : Nat} (first : Lexer.hexDigit? a = some w) (second : Lexer.hexDigit? b = some x)
      (third : Lexer.hexDigit? c = some y) (fourth : Lexer.hexDigit? d = some z) :
      IsWritten ['\\', 'u', a, b, c, d] (.unit (16 * (16 * (16 * w + x) + y) + z))

/-- A unit that begins a pair. -/
def IsHigh (n : Nat) : Prop :=
  0xD800 ≤ n ∧ n < 0xDC00

/-- A unit that completes a pair. -/
def IsLow (n : Nat) : Prop :=
  0xDC00 ≤ n ∧ n < 0xE000

instance (n : Nat) : Decidable (IsHigh n) :=
  inferInstanceAs (Decidable (_ ∧ _))

instance (n : Nat) : Decidable (IsLow n) :=
  inferInstanceAs (Decidable (_ ∧ _))

theorem IsLow.not_isHigh {n : Nat} (h : IsLow n) : ¬ IsHigh n := by
  intro hhigh
  exact absurd hhigh.2 (Nat.not_lt.2 h.1)

/-- The text of glyphs: a high unit and a low one right behind it are a character, and any such unit alone spoils the text. -/
def text? : List Glyph → Option (List Char)
  | [] => some []
  | .char c :: rest => (text? rest).map (c :: ·)
  | .unit high :: .unit low :: rest =>
    if IsHigh high ∧ IsLow low then (text? rest).map (Char.ofNat (0x10000 + (high - 0xD800) * 0x400 + (low - 0xDC00)) :: ·)
    else if IsHigh high ∨ IsLow high then none
    else (text? (.unit low :: rest)).map (Char.ofNat high :: ·)
  | .unit n :: rest => if IsHigh n ∨ IsLow n then none else (text? rest).map (Char.ofNat n :: ·)

/-- A unit that is no part of a pair is a character. -/
theorem text?_unit {n : Nat} (h : ¬ (IsHigh n ∨ IsLow n)) (rest : List Glyph) :
    text? (.unit n :: rest) = (text? rest).map (Char.ofNat n :: ·) := by
  cases rest with
  | nil => simp only [text?, if_neg h]
  | cons glyph rest =>
    cases glyph with
    | char c => simp only [text?, if_neg h]
    | unit low =>
      have hpair : ¬ (IsHigh n ∧ IsLow low) := fun hpair => h (.inl hpair.1)
      rw [text?, if_neg hpair, if_neg h]

end Glyph

/-- Glyphs written one after the other. -/
inductive Quoted : List Char → List Glyph → Prop where
  | nil : Quoted [] []
  | cons {front cs : List Char} {glyph : Glyph} {glyphs : List Glyph} (isWritten : glyph.IsWritten front)
      (rest : Quoted cs glyphs) : Quoted (front ++ cs) (glyph :: glyphs)

namespace Lexer

/-- One more glyph. -/
def Written.take (w : Written) : Glyph → Written
  | .char c => w.put c
  | .unit n => w.putUnit n

/-- A text that is spoilt stays so. -/
theorem finish_foldl_spoilt {w : Written} (h : w.chars = none) (glyphs : List Glyph) : (glyphs.foldl Written.take w).finish = none := by
  induction glyphs generalizing w with
  | nil =>
    rw [List.foldl_nil, Written.finish, h]
    simp
  | cons glyph glyphs ih =>
    refine ih ?_
    cases glyph with
    | char c => simp [Written.take, Written.put, h]
    | unit n =>
      simp only [Written.take, Written.putUnit, Written.put, h]
      split
      · simp
      · split
        · split <;> simp
        · simp

/-- A unit is taken by its kind. -/
theorem putUnit_eq (w : Written) (n : Nat) :
    w.putUnit n =
      if Glyph.IsHigh n then ⟨if w.high.isNone then w.chars else none, some n⟩
      else if Glyph.IsLow n then
        match w.high with
        | some high => ⟨w.chars.map (Char.ofNat (0x10000 + (high - 0xD800) * 0x400 + (n - 0xDC00)) :: ·), none⟩
        | none => ⟨none, none⟩
      else w.put (Char.ofNat n) :=
  rfl

theorem putUnit_of_isHigh {n : Nat} (h : Glyph.IsHigh n) (acc : List Char) :
    Written.putUnit ⟨some acc, none⟩ n = ⟨some acc, some n⟩ :=
  if_pos h

/-- A low unit that completes nothing spoils the text. -/
theorem chars_putUnit_of_isLow {n : Nat} (h : Glyph.IsLow n) (acc : List Char) :
    (Written.putUnit ⟨some acc, none⟩ n).chars = none := by
  rw [putUnit_eq, if_neg h.not_isHigh, if_pos h]

/-- A low unit completes the pair of the one that waits. -/
theorem putUnit_of_pair {high low : Nat} (h : Glyph.IsLow low) (acc : List Char) :
    Written.putUnit ⟨some acc, some high⟩ low =
      ⟨some (Char.ofNat (0x10000 + (high - 0xD800) * 0x400 + (low - 0xDC00)) :: acc), none⟩ := by
  rw [putUnit_eq, if_neg h.not_isHigh, if_pos h]
  rfl

/-- Any other unit is a character. -/
theorem putUnit_of_not {n : Nat} (h : ¬ (Glyph.IsHigh n ∨ Glyph.IsLow n)) (acc : List Char) :
    Written.putUnit ⟨some acc, none⟩ n = ⟨some (Char.ofNat n :: acc), none⟩ := by
  obtain ⟨hhigh, hlow⟩ := not_or.1 h
  rw [putUnit_eq, if_neg hhigh, if_neg hlow]
  rfl

/-- While a unit waits, any glyph but a low unit spoils the text. -/
theorem chars_take_waiting {glyph : Glyph} (h : ∀ n, glyph = .unit n → ¬ Glyph.IsLow n) (acc : List Char) (high : Nat) :
    (Written.take ⟨some acc, some high⟩ glyph).chars = none := by
  cases glyph with
  | char c => rfl
  | unit n =>
    rw [Written.take, putUnit_eq]
    by_cases hhigh : Glyph.IsHigh n
    · rw [if_pos hhigh]
      rfl
    · rw [if_neg hhigh, if_neg (h n rfl)]
      rfl

/-- A lone unit of a pair spoils the text. -/
theorem finish_foldl_alone {n : Nat} (hn : Glyph.IsHigh n ∨ Glyph.IsLow n) (acc : List Char) {rest : List Glyph}
    (hrest : ∀ low ∈ rest.head?, ∀ m, low = .unit m → ¬ (Glyph.IsHigh n ∧ Glyph.IsLow m)) :
    ((Glyph.unit n :: rest).foldl Written.take ⟨some acc, none⟩).finish = none := by
  rw [List.foldl_cons]
  by_cases hhigh : Glyph.IsHigh n
  · rw [Written.take, putUnit_of_isHigh hhigh]
    cases rest with
    | nil => rfl
    | cons glyph rest =>
      refine finish_foldl_spoilt (chars_take_waiting ?_ acc n) rest
      intro m hm hlow
      exact hrest glyph rfl m hm ⟨hhigh, hlow⟩
  · exact finish_foldl_spoilt (chars_putUnit_of_isLow (hn.resolve_left hhigh) acc) rest

/-- What is read of glyphs is their text. -/
theorem finish_foldl_take (glyphs : List Glyph) (acc : List Char) :
    (glyphs.foldl Written.take ⟨some acc, none⟩).finish = (Glyph.text? glyphs).map fun cs => String.ofList (acc.reverse ++ cs) := by
  induction glyphs using Glyph.text?.induct generalizing acc with
  | case1 => simp [Glyph.text?, Written.finish]
  | case2 c rest ih =>
    rw [List.foldl_cons, Glyph.text?]
    refine (ih (c :: acc)).trans ?_
    simp [Function.comp_def]
  | case3 high low rest hpair ih =>
    simp only [List.foldl_cons, Written.take]
    rw [putUnit_of_isHigh hpair.1, putUnit_of_pair hpair.2, ih, Glyph.text?, if_pos hpair]
    simp [Function.comp_def]
  | case4 high low rest hpair halone =>
    rw [Glyph.text?, if_neg hpair, if_pos halone]
    refine finish_foldl_alone halone acc ?_
    intro glyph hglyph m hm
    cases hglyph
    cases hm
    exact hpair
  | case5 high low rest hpair halone ih =>
    rw [Glyph.text?_unit halone, List.foldl_cons, Written.take, putUnit_of_not halone, ih]
    simp [Function.comp_def]
  | case6 n rest hnext halone =>
    have htext : Glyph.text? (.unit n :: rest) = none := by
      rw [Glyph.text?, if_pos halone]
      exact hnext
    rw [htext]
    refine finish_foldl_alone halone acc ?_
    intro glyph hglyph m hm
    cases rest with
    | nil => cases hglyph
    | cons first rest =>
      cases hglyph
      exact absurd hm (fun hm => hnext m rest (hm ▸ rfl))
  | case7 n rest hnext halone ih =>
    rw [Glyph.text?_unit halone, List.foldl_cons, Written.take, putUnit_of_not halone, ih]
    simp [Function.comp_def]

theorem step_hex_more {c : Char} {digit left : Nat} (h : hexDigit? c = some digit) (hleft : 1 < left) (w : Written)
    (value : Nat) : step (.hex w left value) c = ([], .hex w (left - 1) (16 * value + digit)) := by
  simp only [step, h, if_pos hleft]

/-- The last hexadecimal digit of an escape completes a unit. -/
theorem step_hex_last {c : Char} {digit : Nat} (h : hexDigit? c = some digit) (w : Written) (value : Nat) :
    step (.hex w 1 value) c = ([], .text (w.putUnit (16 * value + digit))) := by
  simp only [step, h, if_neg (Nat.lt_irrefl 1)]

/-- A written glyph is read as the glyph. -/
theorem scan_isWritten {front : List Char} {glyph : Glyph} (h : glyph.IsWritten front) (w : Written) (rest : List Char) :
    scan (.text w) (front ++ rest) = scan (.text (w.take glyph)) rest := by
  cases h with
  | @plain c hquote hbackslash hcontrol =>
    rw [List.singleton_append, scan_cons, step, if_neg hquote, if_neg hbackslash, if_neg (Nat.not_lt.2 hcontrol)]
    rfl
  | @letter e c hunescape =>
    have hletter : e ≠ 'u' := by
      rintro rfl
      cases hunescape
    have hescape : step (.escape w) e = ([], .text (w.put c)) := by
      simp only [step, if_neg hletter, hunescape]
    have hfront : scan (.text w) ('\\' :: e :: rest) = scan (.escape w) (e :: rest) := scan_cons (.text w) '\\' (e :: rest)
    rw [List.cons_append, List.singleton_append, hfront, scan_cons, hescape]
    rfl
  | @unit a b c d u x y z ha hb hc hd =>
    have hfront : ∀ cs, scan (.text w) ('\\' :: 'u' :: cs) = scan (.hex w 4 0) cs := by
      intro cs
      rfl
    rw [List.cons_append, List.cons_append, hfront]
    simp only [List.cons_append, List.nil_append]
    rw [scan_cons, step_hex_more ha (by decide), scan_cons, step_hex_more hb (by decide), scan_cons, step_hex_more hc (by decide),
      scan_cons, step_hex_last hd]
    simp [Written.take]

/-- Glyphs up to a quote are read as their text. -/
theorem scan_quoted {front : List Char} {glyphs : List Glyph} (h : Quoted front glyphs) (w : Written) (rest : List Char) :
    scan (.text w) (front ++ '"' :: rest) = after [.text (glyphs.foldl Written.take w).finish] (scan .between rest) := by
  induction h generalizing w with
  | nil => exact scan_cons (.text w) '"' rest
  | cons isWritten rest ih =>
    rw [List.append_assoc, scan_isWritten isWritten, ih]
    rfl

/-- Where a hexadecimal digit must come one does. -/
theorem exists_of_scan_hex {w : Written} {left value : Nat} {cs : List Char} {lexemes : List Lexeme}
    (h : scan (.hex w left value) cs = (lexemes, true)) : ∃ c rest digit, cs = c :: rest ∧ hexDigit? c = some digit := by
  cases cs with
  | nil => exact absurd (congrArg Prod.snd h) Bool.false_ne_true
  | cons c rest =>
    cases hdigit : hexDigit? c with
    | some digit => exact ⟨c, rest, digit, rfl, hdigit⟩
    | none =>
      have hbroken : step (.hex w left value) c = ([], .broken) := by
        simp only [step, hdigit]
      rw [scan_cons, hbroken, after_nil] at h
      exact absurd h scan_broken_ne

/-- Behind a backslash stands a letter or a unit. -/
theorem exists_of_scan_escape {w : Written} {cs : List Char} {lexemes : List Lexeme} (h : scan (.escape w) cs = (lexemes, true)) :
    ∃ front rest glyph, cs = front ++ rest ∧ Glyph.IsWritten ('\\' :: front) glyph ∧
      scan (.text (w.take glyph)) rest = (lexemes, true) := by
  cases cs with
  | nil => exact absurd (congrArg Prod.snd h) Bool.false_ne_true
  | cons e cs =>
    by_cases hunit : e = 'u'
    · subst hunit
      have hhex : scan (.hex w 4 0) cs = (lexemes, true) := h
      obtain ⟨a, cs, u, rfl, ha⟩ := exists_of_scan_hex hhex
      rw [scan_cons, step_hex_more ha (by decide), after_nil] at hhex
      obtain ⟨b, cs, x, rfl, hb⟩ := exists_of_scan_hex hhex
      rw [scan_cons, step_hex_more hb (by decide), after_nil] at hhex
      obtain ⟨c, cs, y, rfl, hc⟩ := exists_of_scan_hex hhex
      rw [scan_cons, step_hex_more hc (by decide), after_nil] at hhex
      obtain ⟨d, cs, z, rfl, hd⟩ := exists_of_scan_hex hhex
      rw [scan_cons, step_hex_last hd, after_nil] at hhex
      refine ⟨['u', a, b, c, d], cs, _, rfl, .unit ha hb hc hd, ?_⟩
      rw [Nat.mul_zero, Nat.zero_add] at hhex
      exact hhex
    · rw [scan_cons] at h
      cases hletter : unescape? e with
      | some c =>
        have hstep : step (.escape w) e = ([], .text (w.put c)) := by
          simp only [step, if_neg hunit, hletter]
        rw [hstep, after_nil] at h
        exact ⟨[e], cs, .char c, rfl, .letter hletter, h⟩
      | none =>
        have hstep : step (.escape w) e = ([], .broken) := by
          simp only [step, if_neg hunit, hletter]
        rw [hstep, after_nil] at h
        exact absurd h scan_broken_ne

/-- A text that is read to an end is glyphs up to a quote. -/
theorem exists_of_scan_text {w : Written} {cs : List Char} {lexemes : List Lexeme} (h : scan (.text w) cs = (lexemes, true)) :
    ∃ front glyphs rest others, cs = front ++ '"' :: rest ∧ Quoted front glyphs ∧
      lexemes = .text (glyphs.foldl Written.take w).finish :: others ∧ scan .between rest = (others, true) := by
  induction hn : cs.length using Nat.strongRecOn generalizing w cs with
  | ind n ih =>
    -- A first glyph leaves a shorter text.
    have hfirst : ∀ front glyph rest, cs = front ++ rest → Glyph.IsWritten front glyph →
        scan (.text (w.take glyph)) rest = (lexemes, true) →
        ∃ front glyphs rest others, cs = front ++ '"' :: rest ∧ Quoted front glyphs ∧
          lexemes = .text (glyphs.foldl Written.take w).finish :: others ∧ scan .between rest = (others, true) := by
      intro front glyph rest hcs hwritten hrest
      have hshorter : rest.length < n := by
        have hpositive : 0 < front.length := by
          cases hwritten <;> exact Nat.zero_lt_succ _
        rw [← hn, hcs, List.length_append]
        omega
      obtain ⟨more, glyphs, tail, others, rfl, hquoted, hlexemes, hothers⟩ := ih _ hshorter hrest rfl
      refine ⟨front ++ more, glyph :: glyphs, tail, others, ?_, .cons hwritten hquoted, hlexemes, hothers⟩
      rw [hcs, List.append_assoc]
    cases cs with
    | nil => exact absurd (congrArg Prod.snd h) Bool.false_ne_true
    | cons c cs =>
      by_cases hquote : c = '"'
      · subst hquote
        have hend : after [.text w.finish] (scan .between cs) = (lexemes, true) := (scan_cons (.text w) '"' cs).symm.trans h
        obtain ⟨others, hlexemes, hothers⟩ := exists_of_after hend
        exact ⟨[], [], cs, others, rfl, .nil, hlexemes, hothers⟩
      · by_cases hbackslash : c = '\\'
        · subst hbackslash
          have hescape : scan (.escape w) cs = (lexemes, true) := h
          obtain ⟨front, rest, glyph, rfl, hwritten, hrest⟩ := exists_of_scan_escape hescape
          exact hfirst ('\\' :: front) glyph rest rfl hwritten hrest
        · by_cases hcontrol : c.toNat < 0x20
          · rw [scan_cons, step, if_neg hquote, if_neg hbackslash, if_pos hcontrol, after_nil] at h
            exact absurd h scan_broken_ne
          · rw [scan_cons, step, if_neg hquote, if_neg hbackslash, if_neg hcontrol, after_nil] at h
            exact hfirst [c] (.char c) cs rfl (.plain hquote hbackslash (Nat.not_lt.1 hcontrol)) h

end Lexer

end Keyset.Json
