import Keyset.Json.Decoder
import Keyset.Proofs.Json.Spelling

/-!
# The grammar of documents

A value is whole when every container in it is closed, and its lexemes are those of its parts between brackets. Where a value must come,
the builder takes the lexemes of a whole value as one step (`Builder.foldl_lexemes`), and whatever it takes to the end of a document
begins with those of a whole value (`Builder.beginsWithValue_of_endsWith`). So a text is a document with a root exactly when it spells
the lexemes of the root, which is whole: `Reading.ofChars_eq_iff`.
-/

namespace Keyset.Json

namespace Reading

/-! ## Whole values -/

/-- Nothing of a value is lost: each container is closed, and what it holds is whole. -/
inductive IsWhole : Reading → Prop where
  | null : IsWhole .null
  | bool (value : Bool) : IsWhole (.bool value)
  | number (value : Numeral) : IsWhole (.number value)
  | text (value : Option String) : IsWhole (.text value)
  | array {items : List Reading} (isWhole : ∀ item ∈ items, IsWhole item) : IsWhole (.array items .closed)
  | object {members : List Member} (isWhole : ∀ member ∈ members, IsWhole member.2) : IsWhole (.object members .closed)

mutual

/-- The lexemes of a value. -/
def lexemes : Reading → List Lexeme
  | .null => [.null]
  | .bool value => [.bool value]
  | .number value => [.number value]
  | .text value => [.text value]
  | .array items _ => .openArray :: [.comma].intercalate (itemLexemes items) ++ [.closeArray]
  | .object members _ => .openObject :: [.comma].intercalate (memberLexemes members) ++ [.closeObject]
  | .broken => []

/-- The lexemes of the items of an array. -/
def itemLexemes : List Reading → List (List Lexeme)
  | [] => []
  | item :: items => item.lexemes :: itemLexemes items

/-- The lexemes of the members of an object. -/
def memberLexemes : List (Option String × Reading) → List (List Lexeme)
  | [] => []
  | (key, value) :: members => (.text key :: .colon :: value.lexemes) :: memberLexemes members

end

theorem itemLexemes_eq_map (items : List Reading) : itemLexemes items = items.map lexemes := by
  induction items with
  | nil => rfl
  | cons item items ih => rw [itemLexemes, ih, List.map_cons]

/-- The lexemes of the members, one by one. -/
theorem memberLexemes_eq_map (members : List Member) :
    memberLexemes members = members.map fun member => .text member.1 :: .colon :: member.2.lexemes := by
  induction members with
  | nil => rfl
  | cons member members ih => rw [memberLexemes, ih, List.map_cons]

end Reading

namespace Builder

/-! ## Whole values are taken -/

/-- Where an array may close or a value come, its items are taken as values. -/
theorem foldl_valueOrClose {item : Reading} (h : item.IsWhole) (others : List (List Lexeme)) (stack : List Frame) (rest : List Lexeme) :
    ([.comma].intercalate (item.lexemes :: others) ++ rest).foldl step ⟨stack, .valueOrClose⟩ =
      ([.comma].intercalate (item.lexemes :: others) ++ rest).foldl step ⟨stack, .value⟩ := by
  cases others with
  | nil =>
    rw [List.intercalate_singleton]
    cases h <;> rfl
  | cons other others =>
    rw [List.intercalate_cons_cons, List.append_assoc, List.append_assoc]
    cases h <;> rfl

/-- Where an object may close or a key come, its members are taken by their keys. -/
theorem foldl_keyOrClose (key : Option String) (value : List Lexeme) (others : List (List Lexeme)) (stack : List Frame)
    (rest : List Lexeme) :
    ([.comma].intercalate ((.text key :: value) :: others) ++ rest).foldl step ⟨stack, .keyOrClose⟩ =
      ([.comma].intercalate ((.text key :: value) :: others) ++ rest).foldl step ⟨stack, .key⟩ := by
  cases others with
  | nil =>
    rw [List.intercalate_singleton]
    rfl
  | cons other others =>
    rw [List.intercalate_cons_cons, List.append_assoc, List.append_assoc]
    rfl

/-- The items that are left of an array, from the place of a value up to the bracket. -/
theorem foldl_items {item : Reading} {items : List Reading}
    (hread : ∀ x ∈ item :: items, ∀ stack rest, (x.lexemes ++ rest).foldl step ⟨stack, .value⟩ = rest.foldl step (put x stack))
    (held : List Reading) (stack : List Frame) (rest : List Lexeme) :
    ([.comma].intercalate ((item :: items).map Reading.lexemes) ++ .closeArray :: rest).foldl step ⟨.array held :: stack, .value⟩ =
      rest.foldl step (put (.array (held.reverse ++ (item :: items)) .closed) stack) := by
  obtain ⟨hitem, hitems⟩ := List.forall_mem_cons.1 hread
  induction items generalizing item held with
  | nil =>
    rw [List.map_cons, List.map_nil, List.intercalate_singleton, hitem, ← List.reverse_cons]
    rfl
  | cons next items ih =>
    obtain ⟨hnext, hrest⟩ := List.forall_mem_cons.1 hitems
    have hstep := ih hitems (item :: held) hnext hrest
    rw [List.reverse_cons, List.append_assoc, List.singleton_append] at hstep
    rw [List.map_cons, List.map_cons, List.intercalate_cons_cons, List.append_assoc, List.append_assoc, hitem]
    exact hstep

/-- Where a key must come, the members that are left of an object, up to the bracket. -/
theorem foldl_members {member : Member} {members : List Member}
    (hread : ∀ x ∈ member :: members, ∀ stack rest,
      (x.2.lexemes ++ rest).foldl step ⟨stack, .value⟩ = rest.foldl step (put x.2 stack))
    (held : List Member) (stack : List Frame) (rest : List Lexeme) :
    ([.comma].intercalate ((member :: members).map fun x => .text x.1 :: .colon :: x.2.lexemes) ++
        .closeObject :: rest).foldl step ⟨.object held none :: stack, .key⟩ =
      rest.foldl step (put (.object (held.reverse ++ (member :: members)) .closed) stack) := by
  obtain ⟨hmember, hmembers⟩ := List.forall_mem_cons.1 hread
  induction members generalizing member held with
  | nil =>
    rw [List.map_cons, List.map_nil, List.intercalate_singleton, ← List.reverse_cons]
    exact hmember (.object held (some member.1) :: stack) (.closeObject :: rest)
  | cons next members ih =>
    obtain ⟨hnext, hrest⟩ := List.forall_mem_cons.1 hmembers
    have hstep := ih hmembers (member :: held) hnext hrest
    rw [List.reverse_cons, List.append_assoc, List.singleton_append] at hstep
    rw [List.map_cons, List.map_cons, List.intercalate_cons_cons, List.append_assoc, List.append_assoc]
    exact (hmember (.object held (some member.1) :: stack) _).trans hstep

/-- The lexemes of a whole value, where a value must come, put the value there. -/
theorem foldl_lexemes {value : Reading} (h : value.IsWhole) (stack : List Frame) (rest : List Lexeme) :
    (value.lexemes ++ rest).foldl step ⟨stack, .value⟩ = rest.foldl step (put value stack) := by
  induction h generalizing stack rest with
  | null => rfl
  | bool value => rfl
  | number value => rfl
  | text value => rfl
  | @array items isWhole ih =>
    rw [Reading.lexemes, Reading.itemLexemes_eq_map, List.append_assoc]
    cases items with
    | nil => rfl
    | cons item items =>
      have hopen := foldl_items ih [] stack rest
      rw [List.map_cons, ← foldl_valueOrClose (isWhole item List.mem_cons_self)] at hopen
      exact hopen
  | @object members isWhole ih =>
    rw [Reading.lexemes, Reading.memberLexemes_eq_map, List.append_assoc]
    cases members with
    | nil => rfl
    | cons member members =>
      have hopen := foldl_members ih [] stack rest
      rw [List.map_cons, ← foldl_keyOrClose] at hopen
      exact hopen

/-! ## Ends of documents -/

theorem finish_eq_true_iff {s : State} : (finish s).2 = true ↔ ∃ root, s.stage = .done root := by
  unfold finish
  split <;> simp_all

/-- Where nothing is read any more there is no document. -/
theorem finish_foldl_halted (stack : List Frame) (lexemes : List Lexeme) :
    (finish (lexemes.foldl step ⟨stack, .halted⟩)).2 = false := by
  induction lexemes with
  | nil => rfl
  | cons lexeme lexemes ih => exact ih

/-- A document with something behind it is none, whatever follows. -/
theorem finish_foldl_surplus (stack : List Frame) (root : Reading) (lexemes : List Lexeme) :
    (finish (lexemes.foldl step ⟨stack, .surplus root⟩)).2 = false := by
  induction lexemes with
  | nil => rfl
  | cons lexeme lexemes ih => exact ih

/-- Behind a whole document nothing may follow. -/
theorem finish_foldl_of_finish {s : State} (h : (finish s).2 = true) {lexemes : List Lexeme} (hne : lexemes ≠ []) :
    (finish (lexemes.foldl step s)).2 = false := by
  obtain ⟨root, hstage⟩ := finish_eq_true_iff.1 h
  obtain ⟨stack, stage⟩ := s
  cases hstage
  cases lexemes with
  | nil => exact absurd rfl hne
  | cons lexeme lexemes => exact finish_foldl_surplus stack root lexemes

/-! ## What is taken is whole -/

/-- A document goes on from here to its end with some lexemes. -/
def State.EndsWith (s : State) (lexemes : List Lexeme) : Prop :=
  (finish (lexemes.foldl step s)).2 = true

/-- Nothing ends a document where nothing is read any more. -/
theorem not_endsWith_halted (stack : List Frame) (lexemes : List Lexeme) : ¬ State.EndsWith ⟨stack, .halted⟩ lexemes := by
  intro h
  rw [State.EndsWith, finish_foldl_halted] at h
  cases h

/-- An array that was opened closes, or its first item comes. -/
theorem exists_or_endsWith_value {stack : List Frame} {lexemes : List Lexeme} (h : State.EndsWith ⟨stack, .valueOrClose⟩ lexemes) :
    (∃ rest, lexemes = .closeArray :: rest) ∨ State.EndsWith ⟨stack, .value⟩ lexemes := by
  cases lexemes with
  | nil => cases h
  | cons lexeme rest =>
    cases lexeme with
    | closeArray => exact .inl ⟨rest, rfl⟩
    | openArray | openObject | closeObject | comma | colon | null | bool | number | text => exact .inr h

/-- An object that was opened closes, or its first key comes. -/
theorem exists_or_endsWith_key {stack : List Frame} {lexemes : List Lexeme} (h : State.EndsWith ⟨stack, .keyOrClose⟩ lexemes) :
    (∃ rest, lexemes = .closeObject :: rest) ∨ State.EndsWith ⟨stack, .key⟩ lexemes := by
  cases lexemes with
  | nil => cases h
  | cons lexeme rest =>
    cases lexeme with
    | closeObject => exact .inl ⟨rest, rfl⟩
    | openArray | closeArray | openObject | comma | colon | null | bool | number | text => exact .inr h

/-- Behind an item of an array that ends stands a comma or the bracket. -/
theorem exists_of_endsWith_item {held : List Reading} {stack : List Frame} {lexemes : List Lexeme}
    (h : State.EndsWith ⟨.array held :: stack, .commaOrClose⟩ lexemes) :
    ∃ rest, lexemes = .closeArray :: rest ∨ lexemes = .comma :: rest ∧ State.EndsWith ⟨.array held :: stack, .value⟩ rest := by
  cases lexemes with
  | nil => cases h
  | cons lexeme rest =>
    cases lexeme with
    | closeArray => exact ⟨rest, .inl rfl⟩
    | comma => exact ⟨rest, .inr ⟨rfl, h⟩⟩
    | openArray | openObject | closeObject | colon | null | bool | number | text => exact absurd h (not_endsWith_halted _ rest)

/-- Behind a member of an object that ends stands a comma or the bracket. -/
theorem exists_of_endsWith_member {held : List Member} {stack : List Frame} {lexemes : List Lexeme}
    (h : State.EndsWith ⟨.object held none :: stack, .commaOrClose⟩ lexemes) :
    ∃ rest, lexemes = .closeObject :: rest ∨ lexemes = .comma :: rest ∧ State.EndsWith ⟨.object held none :: stack, .key⟩ rest := by
  cases lexemes with
  | nil => cases h
  | cons lexeme rest =>
    cases lexeme with
    | closeObject => exact ⟨rest, .inl rfl⟩
    | comma => exact ⟨rest, .inr ⟨rfl, h⟩⟩
    | openArray | openObject | closeArray | colon | null | bool | number | text => exact absurd h (not_endsWith_halted _ rest)

/-- A key comes with a colon before its value. -/
theorem exists_of_endsWith_key {held : List Member} {stack : List Frame} {lexemes : List Lexeme}
    (h : State.EndsWith ⟨.object held none :: stack, .key⟩ lexemes) :
    ∃ key rest, lexemes = .text key :: .colon :: rest ∧ State.EndsWith ⟨.object held (some key) :: stack, .value⟩ rest := by
  cases lexemes with
  | nil => cases h
  | cons lexeme rest =>
    cases lexeme with
    | text key =>
      cases rest with
      | nil => cases h
      | cons lexeme rest =>
        cases lexeme with
        | colon => exact ⟨key, rest, rfl, h⟩
        | openArray | closeArray | openObject | closeObject | comma | null | bool | number | text =>
          exact absurd h (not_endsWith_halted _ rest)
    | openArray | closeArray | openObject | closeObject | comma | colon | null | bool | number =>
      exact absurd h (not_endsWith_halted _ rest)

/-- What ends a document where a value must come begins with a whole value. -/
def BeginsWithValue (lexemes : List Lexeme) : Prop :=
  ∃ (value : Reading) (rest : List Lexeme), value.IsWhole ∧ lexemes = value.lexemes ++ rest

/-- The items up to the bracket of an array, where values are read from any shorter list. -/
theorem exists_items_of_endsWith {n : Nat}
    (hvalue : ∀ lexemes stack, lexemes.length < n → State.EndsWith ⟨stack, .value⟩ lexemes → BeginsWithValue lexemes)
    {held : List Reading} {stack : List Frame} {lexemes : List Lexeme} (hn : lexemes.length < n)
    (h : State.EndsWith ⟨.array held :: stack, .value⟩ lexemes) :
    ∃ item items rest, (∀ x ∈ item :: items, x.IsWhole) ∧
      lexemes = [.comma].intercalate ((item :: items).map Reading.lexemes) ++ .closeArray :: rest := by
  induction hlength : lexemes.length using Nat.strongRecOn generalizing lexemes held with
  | ind m ih =>
    obtain ⟨item, rest, hitem, rfl⟩ := hvalue _ _ hn h
    rw [State.EndsWith, foldl_lexemes hitem] at h
    rw [List.length_append] at hn hlength
    obtain ⟨others, rfl | ⟨rfl, hothers⟩⟩ := exists_of_endsWith_item h
    · refine ⟨item, [], others, ?_, ?_⟩
      · simpa using hitem
      · rw [List.map_cons, List.map_nil, List.intercalate_singleton]
    · rw [List.length_cons] at hn hlength
      obtain ⟨next, items, tail, hwhole, rfl⟩ := ih others.length (by omega) (by omega) hothers rfl
      refine ⟨item, next :: items, tail, List.forall_mem_cons.2 ⟨hitem, hwhole⟩, ?_⟩
      simp only [List.map_cons, List.intercalate_cons_cons, List.append_assoc, List.cons_append, List.nil_append]

/-- The members up to the bracket of an object, where values are read from any shorter list. -/
theorem exists_members_of_endsWith {n : Nat}
    (hvalue : ∀ lexemes stack, lexemes.length < n → State.EndsWith ⟨stack, .value⟩ lexemes → BeginsWithValue lexemes)
    {held : List Member} {stack : List Frame} {lexemes : List Lexeme} (hn : lexemes.length < n)
    (h : State.EndsWith ⟨.object held none :: stack, .key⟩ lexemes) :
    ∃ (member : Member) (members : List Member) (rest : List Lexeme), (∀ x ∈ member :: members, x.2.IsWhole) ∧
      lexemes = [.comma].intercalate ((member :: members).map fun x => .text x.1 :: .colon :: x.2.lexemes) ++ .closeObject :: rest := by
  induction hlength : lexemes.length using Nat.strongRecOn generalizing lexemes held with
  | ind m ih =>
    obtain ⟨key, behind, rfl, hbehind⟩ := exists_of_endsWith_key h
    simp only [List.length_cons] at hn hlength
    obtain ⟨value, rest, hvalue, rfl⟩ := hvalue behind _ (by omega) hbehind
    rw [State.EndsWith, foldl_lexemes hvalue] at hbehind
    rw [List.length_append] at hn hlength
    obtain ⟨others, rfl | ⟨rfl, hothers⟩⟩ := exists_of_endsWith_member hbehind
    · refine ⟨(key, value), [], others, ?_, ?_⟩
      · simpa using hvalue
      · rw [List.map_cons, List.map_nil, List.intercalate_singleton]
        rfl
    · rw [List.length_cons] at hn hlength
      obtain ⟨next, members, tail, hwhole, rfl⟩ := ih others.length (by omega) (by omega) hothers rfl
      refine ⟨(key, value), next :: members, tail, List.forall_mem_cons.2 ⟨hvalue, hwhole⟩, ?_⟩
      simp only [List.map_cons, List.intercalate_cons_cons, List.append_assoc, List.cons_append, List.nil_append]

/-- What ends a document where a value must come begins with the lexemes of a whole value. -/
theorem beginsWithValue_of_endsWith {lexemes : List Lexeme} {stack : List Frame} (h : State.EndsWith ⟨stack, .value⟩ lexemes) :
    BeginsWithValue lexemes := by
  induction hlength : lexemes.length using Nat.strongRecOn generalizing lexemes stack with
  | ind n ih =>
    have hvalue : ∀ lexemes stack, lexemes.length < n → State.EndsWith ⟨stack, .value⟩ lexemes → BeginsWithValue lexemes := by
      intro lexemes stack hshorter hends
      exact ih lexemes.length hshorter hends rfl
    cases lexemes with
    | nil => cases h
    | cons lexeme rest =>
      rw [List.length_cons] at hlength
      cases lexeme with
      | null => exact ⟨.null, rest, .null, rfl⟩
      | bool value => exact ⟨.bool value, rest, .bool value, rfl⟩
      | number value => exact ⟨.number value, rest, .number value, rfl⟩
      | text value => exact ⟨.text value, rest, .text value, rfl⟩
      | closeArray | closeObject | comma | colon => exact absurd h (not_endsWith_halted _ rest)
      | openArray =>
        rcases exists_or_endsWith_value h with ⟨others, rfl⟩ | hopen
        · exact ⟨.array [] .closed, others, .array (by simp), rfl⟩
        · obtain ⟨item, items, tail, hwhole, rfl⟩ := exists_items_of_endsWith hvalue (by omega) hopen
          refine ⟨.array (item :: items) .closed, tail, .array hwhole, ?_⟩
          rw [Reading.lexemes, Reading.itemLexemes_eq_map, List.cons_append, List.cons_append, List.append_assoc,
            List.singleton_append]
      | openObject =>
        rcases exists_or_endsWith_key h with ⟨others, rfl⟩ | hopen
        · exact ⟨.object [] .closed, others, .object (by simp), rfl⟩
        · obtain ⟨member, members, tail, hwhole, rfl⟩ := exists_members_of_endsWith hvalue (by omega) hopen
          refine ⟨.object (member :: members) .closed, tail, .object hwhole, ?_⟩
          rw [Reading.lexemes, Reading.memberLexemes_eq_map, List.cons_append, List.cons_append, List.append_assoc,
            List.singleton_append]

end Builder

/-! ## Documents -/

/-- A text is a document with a root: it spells the lexemes of the root, and the root is whole. -/
def Reading.IsSpelled (root : Reading) (cs : List Char) : Prop :=
  root.IsWhole ∧ Spelled cs root.lexemes

/-- What is read of a text, by its lexemes. -/
theorem Reading.ofChars_eq (cs : List Char) (whole : Bool) :
    Reading.ofChars cs whole =
      ((Builder.finish ((Lexer.scan .between cs).1.foldl Builder.step .initial)).1,
        (Builder.finish ((Lexer.scan .between cs).1.foldl Builder.step .initial)).2 && (Lexer.scan .between cs).2 && whole) :=
  rfl

/-- What spells a root is read as it. -/
theorem Reading.ofChars_of_isSpelled {cs : List Char} {root : Reading} (h : root.IsSpelled cs) (whole : Bool) :
    Reading.ofChars cs whole = (root, whole) := by
  obtain ⟨hwhole, hspelled⟩ := h
  have hbuilt := Builder.foldl_lexemes hwhole [] []
  rw [List.append_nil] at hbuilt
  rw [ofChars_eq, Lexer.scan_eq_iff.2 hspelled, Builder.State.initial, hbuilt]
  rfl

/-- A text is read as a document with a root exactly when it spells the root. -/
theorem Reading.ofChars_eq_iff {cs : List Char} {root : Reading} : Reading.ofChars cs true = (root, true) ↔ root.IsSpelled cs := by
  refine ⟨?_, fun h => ofChars_of_isSpelled h true⟩
  intro h
  rw [ofChars_eq, Prod.mk.injEq, Bool.and_true, Bool.and_eq_true] at h
  obtain ⟨hroot, hdone, hended⟩ := h
  obtain ⟨value, rest, hwhole, hlexemes⟩ := Builder.beginsWithValue_of_endsWith hdone
  rw [hlexemes, Builder.State.initial, Builder.foldl_lexemes hwhole] at hdone hroot
  -- Behind the root nothing follows.
  have hrest : rest = [] := by
    by_cases hrest : rest = []
    · exact hrest
    · have hsurplus := Builder.finish_foldl_of_finish (s := Builder.put value []) rfl hrest
      rw [hdone] at hsurplus
      cases hsurplus
  subst hrest
  rw [List.append_nil] at hlexemes
  have hvalue : value = root := hroot
  subst hvalue
  exact ⟨hwhole, Lexer.scan_eq_iff.1 (Prod.ext hlexemes hended)⟩

/-- A decoder makes of a text what it makes of the root. -/
theorem Decoder.decodeText_of_isSpelled (decode : Decoder α) {text : String} {root : Reading} (h : root.IsSpelled text.toList) :
    decode.decodeText text = decode root := by
  rw [decodeText, decodeChars, Reading.ofChars_of_isSpelled h]
  cases hdecode : decode root with
  | error fault =>
    simp only [hdecode]
    rfl
  | ok a =>
    simp only [hdecode]
    rfl

end Keyset.Json
