import Keyset.Predicate
import Keyset.Proofs.Value.Display

/-!
# Shown conditions

Conditions that are shown alike are the same: `Predicate.display_inj`. A part of a joined condition is read off the front of a text,
whatever stands behind it (`Predicate.IsPlain.delimited`): a comparison ends with its value, and what is joined with the parenthesis that
closes it, so neither an apostrophe nor a parenthesis inside a shown text is taken for one of the condition.
-/

namespace Keyset

/-- A letter or a digit of ASCII, or an underscore. -/
def isWordChar (c : Char) : Bool :=
  c.isAlphanum || c = '_'

/-- At least one letter, digit or underscore, and nothing else. -/
def IsWord (cs : List Char) : Prop :=
  cs ≠ [] ∧ ∀ c ∈ cs, isWordChar c = true

/-- A word that ends where something else goes on is told by the whole text. -/
theorem IsWord.append_inj {v w r s : List Char} (hv : IsWord v) (hw : IsWord w) (hr : Value.Ends r) (hs : Value.Ends s)
    (h : v ++ r = w ++ s) : v = w ∧ r = s := by
  have hends : ∀ t, Value.Ends t → ∀ c ∈ t.head?, isWordChar c = false := by
    intro t ht c hc
    rcases ht c hc with rfl | rfl <;> decide
  exact Text.append_inj_of_run hv.2 hw.2 (hends r hr) (hends s hs) h

/-- A word does not begin with a parenthesis. -/
theorem IsWord.append_ne {word : List Char} (h : IsWord word) {r s : List Char} : word ++ r ≠ '(' :: s := by
  intro heq
  cases word with
  | nil => exact h.1 rfl
  | cons c word =>
    obtain ⟨rfl, -⟩ := List.cons.inj heq
    exact absurd (h.2 '(' List.mem_cons_self) (by decide)

/-- The words that stand between the parts of a joined condition. -/
inductive Joint where
  | and
  | or

namespace Joint

/-- A word as it stands between two parts. -/
def chars : Joint → List Char
  | .and => [' ', 'A', 'N', 'D', ' ']
  | .or => [' ', 'O', 'R', ' ']

/-- Which word it is shows in its first letter. -/
theorem chars_append_inj {a b : Joint} {r s : List Char} (h : a.chars ++ r = b.chars ++ s) : a = b ∧ r = s := by
  cases a <;> cases b
  case and.and | or.or => exact ⟨rfl, List.append_cancel_left h⟩
  all_goals simp [chars] at h

end Joint

/-- Which operator it is shows in its sign. -/
theorem Operator.symbol_append_inj {a b : Operator} {r s : List Char} (h : a.symbol.toList ++ r = b.symbol.toList ++ s) :
    a = b ∧ r = s := by
  cases a <;> cases b
  case eq.eq | lt.lt | gt.gt => exact ⟨rfl, List.append_cancel_left h⟩
  all_goals simp [symbol] at h

namespace Predicate

/-- A condition that is told by how it is shown: nothing or at least two parts are joined, and words are compared with plain values. -/
inductive IsPlain : Predicate → Prop where
  | conj {parts : List Predicate} (length_ne_one : parts.length ≠ 1) (each : ∀ part ∈ parts, IsPlain part) : IsPlain (.conj parts)
  | disj {parts : List Predicate} (length_ne_one : parts.length ≠ 1) (each : ∀ part ∈ parts, IsPlain part) : IsPlain (.disj parts)
  | compare {column : Column} {operator : Operator} {value : Value} (isWord : IsWord column.name.toList) (isPlain : value.IsPlain) :
      IsPlain (.compare column operator value)

/-! ## The text of a condition -/

/-- The text of a condition as a part of another. -/
def partChars : Predicate → List Char
  | .compare column operator value => (display (.compare column operator value)).toList
  | part => '(' :: ((display part).toList ++ [')'])

theorem displayParts_toList (parts : List Predicate) : (displayParts parts).map String.toList = parts.map partChars := by
  induction parts with
  | nil => rfl
  | cons part parts ih => cases part <;> simp [displayParts, partChars, ih]

theorem display_compare (column : Column) (operator : Operator) (value : Value) :
    (compare column operator value).display.toList =
      column.name.toList ++ ' ' :: (operator.symbol.toList ++ ' ' :: value.display.toList) := by
  simp [display]

/-- What stands behind the first part: the other parts, each behind the word that joins it. -/
def tailChars (joint : Joint) (parts : List Predicate) : List Char :=
  parts.flatMap fun part => joint.chars ++ part.partChars

/-- Behind the first part stands a word, and the next part with what stands behind that. -/
theorem tailChars_cons_append (joint : Joint) (part : Predicate) (parts : List Predicate) (rest : List Char) :
    tailChars joint (part :: parts) ++ rest = joint.chars ++ (part.partChars ++ (tailChars joint parts ++ rest)) := by
  simp only [tailChars, List.flatMap_cons, List.append_assoc]

/-- Parts that are joined are the first one and what stands behind it. -/
theorem intercalate_partChars (joint : Joint) (first : Predicate) (parts : List Predicate) :
    joint.chars.intercalate ((first :: parts).map partChars) = first.partChars ++ tailChars joint parts := by
  induction parts generalizing first with
  | nil => simp [tailChars]
  | cons second parts ih =>
    have htail := tailChars_cons_append joint second parts []
    rw [List.append_nil, List.append_nil] at htail
    rw [List.map_cons, List.map_cons, List.intercalate_cons_cons, ← List.map_cons, ih, htail, List.append_assoc]

/-- A joint of nothing is shown as one word. -/
inductive Stands : Predicate → List Char → Prop where
  | all : Stands (.conj []) ['T', 'R', 'U', 'E']
  | none : Stands (.disj []) ['F', 'A', 'L', 'S', 'E']

theorem Stands.display_eq {p : Predicate} {word : List Char} (h : Stands p word) : p.display.toList = word := by
  cases h <;> simp [display]

/-- What stands for a joint of nothing is a word as names are. -/
theorem Stands.isWord {p : Predicate} {word : List Char} (h : Stands p word) : IsWord word := by
  cases h <;> simp [IsWord, isWordChar]

/-- A joint of nothing is told by its word. -/
theorem Stands.append_inj {p q : Predicate} {v w r s : List Char} (hp : Stands p v) (hq : Stands q w) (h : v ++ r = w ++ s) :
    p = q ∧ r = s := by
  cases hp <;> cases hq
  case all.all | none.none => exact ⟨rfl, List.append_cancel_left h⟩
  all_goals simp at h

/-- A condition that is shown as parts: a comparison alone, or two parts and more with a word between them. -/
inductive Joins : Predicate → Joint → Predicate → List Predicate → Prop where
  | compare (column : Column) (operator : Operator) (value : Value) (joint : Joint) :
      Joins (.compare column operator value) joint (.compare column operator value) []
  | conj (first second : Predicate) (parts : List Predicate) : Joins (.conj (first :: second :: parts)) .and first (second :: parts)
  | disj (first second : Predicate) (parts : List Predicate) : Joins (.disj (first :: second :: parts)) .or first (second :: parts)

/-- What is shown as parts is the text of the first and what stands behind it. -/
theorem Joins.display_eq {p first : Predicate} {joint : Joint} {parts : List Predicate} (h : Joins p joint first parts) :
    p.display.toList = first.partChars ++ tailChars joint parts := by
  cases h with
  | compare column operator value => rw [tailChars, List.flatMap_nil, List.append_nil, partChars]
  | conj _ second parts =>
    rw [← intercalate_partChars, display, String.toList_intercalate, displayParts_toList]
    · rfl
    · simp
  | disj _ second parts =>
    rw [← intercalate_partChars, display, String.toList_intercalate, displayParts_toList]
    · rfl
    · simp

/-- A condition is told by its parts, and by the word between them when there are several. -/
theorem Joins.inj {p q first : Predicate} {a b : Joint} {parts : List Predicate} (hp : Joins p a first parts)
    (hq : Joins q b first parts) (h : parts ≠ [] → a = b) : p = q := by
  cases hp with
  | compare => cases hq; rfl
  | conj first second parts =>
    cases hq with
    | conj => rfl
    | disj => cases h (List.cons_ne_nil _ _)
  | disj first second parts =>
    cases hq with
    | conj => cases h (List.cons_ne_nil _ _)
    | disj => rfl

/-- The parts of a plain condition are plain. -/
theorem Joins.isPlain {p first : Predicate} {joint : Joint} {parts : List Predicate} (h : Joins p joint first parts)
    (hp : p.IsPlain) : ∀ part ∈ first :: parts, part.IsPlain := by
  cases h with
  | compare => exact List.forall_mem_singleton.2 hp
  | conj => cases hp with | conj _ each => exact each
  | disj => cases hp with | disj _ each => exact each

/-- A plain condition is shown as a word or as parts. -/
theorem IsPlain.stands_or_joins {p : Predicate} (h : p.IsPlain) :
    (∃ word, Stands p word) ∨ ∃ joint first parts, Joins p joint first parts := by
  cases h with
  | compare => exact .inr ⟨.and, _, _, .compare _ _ _ _⟩
  | @conj parts length_ne_one =>
    match parts with
    | [] => exact .inl ⟨_, .all⟩
    | [part] => exact absurd rfl length_ne_one
    | first :: second :: parts => exact .inr ⟨_, _, _, .conj first second parts⟩
  | @disj parts length_ne_one =>
    match parts with
    | [] => exact .inl ⟨_, .none⟩
    | [part] => exact absurd rfl length_ne_one
    | first :: second :: parts => exact .inr ⟨_, _, _, .disj first second parts⟩

/-! ## What stands behind a condition -/

/-- What may stand behind a whole condition: nothing or a closing parenthesis. -/
def Closes (rest : List Char) : Prop :=
  ∀ c ∈ rest.head?, c = ')'

theorem closes_nil : Closes [] := by
  simp [Closes]

theorem closes_cons (rest : List Char) : Closes (')' :: rest) := by
  simp [Closes]

/-- What stands behind a whole condition is not what stands between parts. -/
theorem Closes.ne_tailChars {rest : List Char} (h : Closes rest) {joint : Joint} {part : Predicate} {parts : List Predicate}
    {s : List Char} : rest ≠ tailChars joint (part :: parts) ++ s := by
  rw [tailChars_cons_append]
  rintro rfl
  cases joint with
  | and => exact absurd (h ' ' rfl) (by decide)
  | or => exact absurd (h ' ' rfl) (by decide)

/-- What may stand behind a whole condition may stand behind its last value. -/
theorem Closes.ends {rest : List Char} (h : Closes rest) : Value.Ends rest :=
  fun c hc => .inr (h c hc)

/-- Behind a part there is a blank, or what stands behind the whole condition. -/
theorem Closes.ends_tailChars {rest : List Char} (h : Closes rest) (joint : Joint) (parts : List Predicate) :
    Value.Ends (tailChars joint parts ++ rest) := by
  cases parts with
  | nil => exact h.ends
  | cons part parts =>
    rw [tailChars_cons_append]
    cases joint with
    | and => exact Value.ends_blank _
    | or => exact Value.ends_blank _

/-! ## Reading off the front of a text -/

/-- A condition that is told by the front of every text that it begins as a part, whatever stands behind it. -/
def Delimited (p : Predicate) : Prop :=
  ∀ ⦃q : Predicate⦄ ⦃r s : List Char⦄, q.IsPlain → Value.Ends r → Value.Ends s → p.partChars ++ r = q.partChars ++ s →
    p = q ∧ r = s

/-- A part is a comparison, which begins with a word, or stands between parentheses. -/
theorem IsPlain.partChars_cases {p : Predicate} (h : p.IsPlain) :
    (∃ column operator value, p = .compare column operator value ∧ IsWord column.name.toList ∧ value.IsPlain ∧
      p.partChars = column.name.toList ++ ' ' :: (operator.symbol.toList ++ ' ' :: value.display.toList)) ∨
    p.partChars = '(' :: (p.display.toList ++ [')']) := by
  cases h with
  | @compare column operator value isWord isPlain =>
    exact .inl ⟨column, operator, value, rfl, isWord, isPlain, display_compare column operator value⟩
  | conj => exact .inr rfl
  | disj => exact .inr rfl

/-- A word that stands for a whole condition is not the front of one that is shown as parts. -/
theorem IsPlain.word_append_ne {p : Predicate} (hp : p.IsPlain) {word r s : List Char} (hword : IsWord word) (hr : Closes r) :
    word ++ r ≠ p.partChars ++ s := by
  intro h
  rcases hp.partChars_cases with ⟨column, operator, value, -, hname, -, hchars⟩ | hchars
  · rw [hchars, List.append_assoc, List.cons_append] at h
    have hblank := (hword.append_inj hname hr.ends (Value.ends_blank _) h).2
    rw [hblank] at hr
    exact absurd (hr ' ' rfl) (by decide)
  · rw [hchars, List.cons_append] at h
    exact hword.append_ne h

/-- A comparison ends with its value. -/
theorem delimited_compare {column : Column} {operator : Operator} {value : Value} (hname : IsWord column.name.toList)
    (hvalue : value.IsPlain) : (compare column operator value).Delimited := by
  intro q r s hq hr hs h
  have hchars : (compare column operator value).partChars =
      column.name.toList ++ ' ' :: (operator.symbol.toList ++ ' ' :: value.display.toList) := display_compare _ _ _
  rcases hq.partChars_cases with ⟨column', operator', value', rfl, hname', hvalue', hchars'⟩ | hchars'
  · rw [hchars, hchars'] at h
    simp only [List.append_assoc, List.cons_append] at h
    obtain ⟨hcolumn, hsign⟩ := hname.append_inj hname' (Value.ends_blank _) (Value.ends_blank _) h
    obtain ⟨hoperator, hshown⟩ := Operator.symbol_append_inj (List.cons.inj hsign).2
    obtain ⟨hequal, hrest⟩ := Value.display_append_inj hvalue hvalue' hr hs (List.cons.inj hshown).2
    cases column
    cases column'
    cases String.toList_inj.1 hcolumn
    exact ⟨by rw [hoperator, hequal], hrest⟩
  · rw [hchars, hchars', List.append_assoc, List.cons_append] at h
    exact absurd h hname.append_ne

/-- The parts behind the first one are told one after the other. -/
theorem tailChars_append_inj {a b : Joint} {ps qs : List Predicate} {r s : List Char} (hps : ∀ p ∈ ps, p.Delimited)
    (hqs : ∀ q ∈ qs, q.IsPlain) (hr : Closes r) (hs : Closes s) (h : tailChars a ps ++ r = tailChars b qs ++ s) :
    ps = qs ∧ r = s ∧ (ps ≠ [] → a = b) := by
  induction ps generalizing qs with
  | nil =>
    cases qs with
    | nil => exact ⟨rfl, h, fun hne => absurd rfl hne⟩
    | cons q qs => exact absurd h hr.ne_tailChars
  | cons p ps ih =>
    cases qs with
    | nil => exact absurd h.symm hs.ne_tailChars
    | cons q qs =>
      rw [List.forall_mem_cons] at hps hqs
      rw [tailChars_cons_append, tailChars_cons_append] at h
      obtain ⟨hjoint, hparts⟩ := Joint.chars_append_inj h
      obtain ⟨hpart, htail⟩ := hps.1 hqs.1 (hr.ends_tailChars a ps) (hs.ends_tailChars b qs) hparts
      obtain ⟨hothers, hrest, -⟩ := ih hps.2 hqs.2 htail
      exact ⟨by rw [hpart, hothers], hrest, fun _ => hjoint⟩

/-- A whole condition is told when its parts are. -/
theorem display_append_inj {p q : Predicate} {r s : List Char} (hp : p.IsPlain) (hq : q.IsPlain)
    (hparts : ∀ joint first parts, Joins p joint first parts → ∀ part ∈ first :: parts, part.Delimited) (hr : Closes r)
    (hs : Closes s) (h : p.display.toList ++ r = q.display.toList ++ s) : p = q ∧ r = s := by
  rcases hp.stands_or_joins with ⟨v, hv⟩ | ⟨a, first, parts, hjoins⟩ <;>
    rcases hq.stands_or_joins with ⟨w, hw⟩ | ⟨b, first', parts', hjoins'⟩
  · rw [hv.display_eq, hw.display_eq] at h
    exact hv.append_inj hw h
  -- A word cannot go on as the name at the front of a comparison does: behind the name there is a blank.
  · rw [hv.display_eq, hjoins'.display_eq, List.append_assoc] at h
    exact absurd h ((hjoins'.isPlain hq first' List.mem_cons_self).word_append_ne hv.isWord hr)
  · rw [hjoins.display_eq, hw.display_eq, List.append_assoc] at h
    exact absurd h.symm ((hjoins.isPlain hp first List.mem_cons_self).word_append_ne hw.isWord hs)
  · have hdelimited := List.forall_mem_cons.1 (hparts a first parts hjoins)
    have hplain := List.forall_mem_cons.1 (hjoins'.isPlain hq)
    rw [hjoins.display_eq, hjoins'.display_eq, List.append_assoc, List.append_assoc] at h
    obtain ⟨rfl, htail⟩ := hdelimited.1 hplain.1 (hr.ends_tailChars a parts) (hs.ends_tailChars b parts') h
    obtain ⟨rfl, hrest, hjoint⟩ := tailChars_append_inj hdelimited.2 hplain.2 hr hs htail
    exact ⟨hjoins.inj hjoins' hjoint, hrest⟩

/-- A part between parentheses ends with the one that closes it, when its own parts are told. -/
theorem delimited_of_enclosed {p : Predicate} (hp : p.IsPlain) (hchars : p.partChars = '(' :: (p.display.toList ++ [')']))
    (hparts : ∀ joint first parts, Joins p joint first parts → ∀ part ∈ first :: parts, part.Delimited) : p.Delimited := by
  intro q r s hq _ _ h
  rcases hq.partChars_cases with ⟨column, operator, value, -, hname, -, hchars'⟩ | hchars'
  · rw [hchars, hchars', List.append_assoc, List.cons_append] at h
    exact absurd h.symm hname.append_ne
  · rw [hchars, hchars', List.cons_append, List.cons_append, List.append_assoc, List.append_assoc] at h
    obtain ⟨heq, hrest⟩ := display_append_inj hp hq hparts (closes_cons r) (closes_cons s) (List.cons.inj h).2
    exact ⟨heq, (List.cons.inj hrest).2⟩

/-- Every plain condition is told by the front of a text that it begins as a part. -/
theorem IsPlain.delimited {p : Predicate} (hp : p.IsPlain) : p.Delimited := by
  -- By induction on the tree: a joint is told because each part inside its parentheses is, whatever follows that part.
  induction hp with
  | compare isWord isPlain => exact delimited_compare isWord isPlain
  | conj length_ne_one each ih =>
    refine delimited_of_enclosed (.conj length_ne_one each) rfl ?_
    intro joint first parts hjoins
    cases hjoins
    exact ih
  | disj length_ne_one each ih =>
    refine delimited_of_enclosed (.disj length_ne_one each) rfl ?_
    intro joint first parts hjoins
    cases hjoins
    exact ih

/-- Conditions that are shown alike are the same, when they join nothing or at least two parts, their columns are named by words, and
their values are numbers or texts without apostrophes. The texts may hold whatever else stands in a condition. -/
theorem display_inj {p q : Predicate} (hp : p.IsPlain) (hq : q.IsPlain) : p.display = q.display ↔ p = q := by
  constructor
  · intro h
    have hparts : ∀ joint first parts, Joins p joint first parts → ∀ part ∈ first :: parts, part.Delimited :=
      fun _ _ _ hjoins part hpart => (hjoins.isPlain hp part hpart).delimited
    exact (display_append_inj hp hq hparts closes_nil closes_nil (congrArg (·.toList ++ []) h)).1
  · rintro rfl
    rfl

/-- Three conditions that are joined from the left are shown otherwise than joined from the right, though the text in the first of them
looks like the one and the other, and the last is a joint of nothing. -/
theorem display_inj_grouped :
    let title := compare ⟨"title"⟩ .eq (.text "a) OR (FALSE AND title = b")
    let level := compare ⟨"level_1"⟩ .gt (.number ⟨0x8000000000000000⟩)
    let left := disj [conj [title, level], disj []]
    let right := conj [title, disj [level, disj []]]
    left.IsPlain ∧ right.IsPlain ∧ left.display ≠ right.display := by
  intro title level left right
  have htitle : title.IsPlain := .compare (by simp [IsWord, isWordChar]) (by simp [Value.IsPlain])
  have hlevel : level.IsPlain := .compare (by simp [IsWord, isWordChar]) rfl
  have hnone : (disj []).IsPlain := .disj (by decide) nofun
  have hleft : left.IsPlain := by
    refine .disj (by decide) (List.forall_mem_cons.2 ⟨?_, List.forall_mem_singleton.2 hnone⟩)
    exact .conj (by decide) (List.forall_mem_cons.2 ⟨htitle, List.forall_mem_singleton.2 hlevel⟩)
  have hright : right.IsPlain := by
    refine .conj (by decide) (List.forall_mem_cons.2 ⟨htitle, List.forall_mem_singleton.2 ?_⟩)
    exact .disj (by decide) (List.forall_mem_cons.2 ⟨hlevel, List.forall_mem_singleton.2 hnone⟩)
  exact ⟨hleft, hright, (display_inj hleft hright).not.2 nofun⟩

end Predicate

end Keyset
