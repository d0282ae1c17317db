import Keyset.Proofs.Boundary.Order
import Keyset.Proofs.Sample
import Keyset.Proofs.Walk.Visit

/-!
# Walks among regular rows

Among `Regular` rows without leap seconds inside a minute the condition of a cursor is met by the rows that stand behind its row
(`Regular.seek_iff_lt`). The client stands at the last row that it was served: `Definition.cursorAt` is its cursor and
`Definition.ahead` are the rows behind that row. A visit never fails and serves the first of the rows ahead
(`Regular.visit_cursorAt`); with a proper limit it leaves none of them out, or leaves a cursor (`Page.first_of_lt`).
-/

namespace Keyset

open Std

variable [Row ρ]

/-! ## Regular rows -/

/-- Rows that hold orderly values in the sort column and in the identity column, each with a token that can be read. -/
structure Regular (rows : ρ → Prop) (column identity : Column) : Prop where
  present : ∀ r, rows r → (Row.field r column).isSome ∧ (Row.field r identity).isSome
  column_orderly : Value.Orderly (column.Holds rows)
  identity_orderly : Value.Orderly (identity.Holds rows)
  token_fits : ∀ r boundary, rows r → Boundary.ofRow? column identity r = some boundary →
    boundary.token.utf8ByteSize ≤ Boundary.maxTokenLength

namespace Regular

variable {rows : ρ → Prop} {column identity : Column}

/-- Every regular row gives a boundary. -/
theorem exists_ofRow? (h : Regular rows column identity) {r : ρ} (hr : rows r) :
    ∃ boundary, Boundary.ofRow? column identity r = some boundary := by
  obtain ⟨hvalue, hid⟩ := h.present r hr
  obtain ⟨value, hvalue⟩ := Option.isSome_iff_exists.1 hvalue
  obtain ⟨id, hid⟩ := Option.isSome_iff_exists.1 hid
  exact ⟨⟨value, id⟩, by rw [Boundary.ofRow?, hvalue, hid]⟩

/-- The token of a regular row carries what the row holds. -/
theorem carried_eq_self (h : Regular rows column identity) (hcivil : Civil rows column identity) {r : ρ} (hr : rows r)
    {boundary : Boundary} (hb : Boundary.ofRow? column identity r = some boundary) : boundary.carried = boundary := by
  obtain ⟨hvalue, hid⟩ := Boundary.ofRow?_eq_some hb
  have hshown := hcivil r boundary hr hb
  rw [Boundary.carried, h.column_orderly.carried_eq_self ⟨r, hr, hvalue⟩ hshown.1,
    h.identity_orderly.carried_eq_self ⟨r, hr, hid⟩ hshown.2]

/-- The regular rows that meet the condition of a boundary are those behind the row it comes from. -/
theorem seek_iff_lt (h : Regular rows column identity) (hcivil : Civil rows column identity) {direction : Direction} {a r : ρ}
    (ha : rows a) (hr : rows r) {boundary : Boundary} (hb : Boundary.ofRow? column identity a = some boundary) :
    (boundary.seek column identity direction).holds r = true ↔
      (Query.cursorOrder column identity direction).compare a r = .lt := by
  obtain ⟨own, hown⟩ := h.exists_ofRow? hr
  obtain ⟨hvalue, hid⟩ := Boundary.ofRow?_eq_some hb
  obtain ⟨hv, hrid⟩ := Boundary.ofRow?_eq_some hown
  have hcomparable : own.Comparable boundary :=
    ⟨h.column_orderly.comparable ⟨r, hr, hv⟩ ⟨a, ha, hvalue⟩, h.identity_orderly.comparable ⟨r, hr, hrid⟩ ⟨a, ha, hid⟩⟩
  have hwhole : boundary.value.IsWhole ∧ boundary.id.IsWhole :=
    ⟨h.column_orderly.isWhole _ ⟨a, ha, hvalue⟩, h.identity_orderly.isWhole _ ⟨a, ha, hid⟩⟩
  have hzeros : ¬ own.HaveZeros boundary := by
    rintro (hboth | hboth)
    · exact h.column_orderly.not_areZeros ⟨r, hr, hv⟩ ⟨a, ha, hvalue⟩ hboth
    · exact h.identity_orderly.not_areZeros ⟨r, hr, hrid⟩ ⟨a, ha, hid⟩ hboth
  rw [← Boundary.holds_seek_iff_row_lt hb hown hcomparable hwhole (hcivil a boundary ha hb) hzeros,
    h.carried_eq_self hcivil ha hb]

end Regular

/-! ## The rows ahead -/

namespace Definition

/-- The cursor of a client that was served up to a row, or nothing yet. -/
def cursorAt (d : Definition κ) (sort : SortBy κ) (position : Option ρ) : Option String :=
  (position.bind (Boundary.ofRow? (d.table.column sort.key) d.identity)).map Boundary.token

/-- The rows of a list that the client is still to be served, in the order of the walk. -/
def ahead (d : Definition κ) (sort : SortBy κ) (filter : Option Predicate) (position : Option ρ) (rows : List ρ) : List ρ :=
  (d.walkOrder sort).sort
    ((rows.filter (Predicate.admits filter)).filter fun r => position.all fun a => (d.walkOrder sort).compare a r = .lt)

variable {d : Definition κ} {sort : SortBy κ} {filter : Option Predicate} {position : Option ρ} {rows : List ρ}

theorem mem_ahead {r : ρ} : r ∈ d.ahead sort filter position rows ↔
    r ∈ rows ∧ Predicate.admits filter r = true ∧ ∀ a ∈ position, (d.walkOrder sort).compare a r = .lt := by
  rw [ahead, ((d.walkOrder sort).sort_perm _).mem_iff, List.mem_filter, List.mem_filter, and_assoc]
  simp only [Option.all_eq_true, decide_eq_true_eq, Option.mem_def]

/-- Rows of different identities are ahead in strict order. -/
theorem pairwise_ahead (sort : SortBy κ)
    (h : (rows.filter (Predicate.admits filter)).Pairwise fun r s => Row.field r d.identity ≠ Row.field s d.identity)
    (position : Option ρ) :
    (d.ahead sort filter position rows).Pairwise fun r s => (d.walkOrder sort).compare r s = .lt := by
  refine RowOrder.pairwise_lt_sort ((h.filter _).imp ?_)
  intro r s hne heq
  refine hne ?_
  have hfields := RowOrder.compare_eq_eq_iff.1 heq
  exact hfields (d.identity, sort.direction) (List.mem_cons_of_mem _ List.mem_cons_self)

/-- A row ahead is among the first ones, or it stands behind the last of these. -/
theorem mem_take_or_lt (sort : SortBy κ)
    (h : (rows.filter (Predicate.admits filter)).Pairwise fun r s => Row.field r d.identity ≠ Row.field s d.identity)
    {n : Nat} {last r : ρ} (hlast : ((d.ahead sort filter position rows).take n).getLast? = some last)
    (hr : r ∈ d.ahead sort filter position rows) :
    r ∈ (d.ahead sort filter position rows).take n ∨ (d.walkOrder sort).compare last r = .lt := by
  have hstrict := pairwise_ahead sort h position
  rw [← List.take_append_drop n (d.ahead sort filter position rows)] at hstrict hr
  rcases List.mem_append.1 hr with hfirst | hlater
  · exact .inl hfirst
  · exact .inr ((List.pairwise_append.1 hstrict).2.2 last (List.mem_of_getLast? hlast) r hlater)

end Definition

theorem Window.ne_maxWord {limit : UInt32} (h : limit.toNat < 4294967295) : limit ≠ maxWord := by
  rintro rfl
  exact absurd h (by decide)

namespace Page

variable {column identity : Column} {limit : UInt32} {rows : List ρ}

omit [Row ρ] in
/-- When there are as many rows as are asked for, the first ones have a last. -/
theorem exists_getLast?_take {n : Nat} (hn : 1 ≤ n) (h : n ≤ rows.length) : ∃ last, (rows.take n).getLast? = some last := by
  have hne : rows.take n ≠ [] := by
    refine List.ne_nil_of_length_pos ?_
    rw [List.length_take]
    omega
  exact ⟨_, List.getLast?_eq_some_getLast hne⟩

/-- Rows that fit into a page are all served, and no page follows. -/
theorem first_of_le (h : rows.length ≤ limit.toNat) : first column identity limit rows = ⟨rows, ⟨false, none⟩⟩ := by
  have hmore : ¬ (limit ≠ Window.maxWord ∧ limit.toNat < rows.length) := by
    rintro ⟨-, hlt⟩
    omega
  simp only [first, hmore, decide_false, if_false, List.take_of_length_le h]

/-- Rows that do not fit into a page are served up to the limit, and the cursor is that of the last of them. -/
theorem first_of_lt (hmax : limit ≠ Window.maxWord) (h : limit.toNat < rows.length) :
    first column identity limit rows = ⟨rows.take limit.toNat,
      ⟨true, ((rows.take limit.toNat).getLast?.bind (Boundary.ofRow? column identity)).map Boundary.token⟩⟩ := by
  have hmore : (limit ≠ Window.maxWord ∧ limit.toNat < rows.length) = True := eq_true ⟨hmax, h⟩
  simp only [first, hmore, decide_true, if_true]

end Page

namespace Regular

variable [DecidableEq κ] {d : Definition κ} {sort : SortBy κ} {held : ρ → Prop}

/-- A visit does not fail, and serves the first of the rows ahead. -/
theorem visit_cursorAt (h : Regular held (d.table.column sort.key) d.identity)
    (hcivil : Civil held (d.table.column sort.key) d.identity) (hexposed : sort.key ∈ d.table.exposed) {position : Option ρ}
    (hposition : ∀ a ∈ position, held a) {filter : Option Predicate} {rows : List ρ}
    (hrows : ∀ r ∈ rows, Predicate.admits filter r = true → held r) (limit : UInt32) :
    d.visit sort limit filter rows (d.cursorAt sort position) =
      .ok (Page.first (d.table.column sort.key) d.identity limit (d.ahead sort filter position rows)) := by
  cases position with
  | none =>
    have hahead : d.ahead sort filter none rows = d.behind sort filter none rows := rfl
    rw [hahead]
    exact Definition.visit_none_eq hexposed limit filter rows
  | some a =>
    have ha : held a := hposition a rfl
    obtain ⟨boundary, hb⟩ := h.exists_ofRow? ha
    have hcursor : d.cursorAt sort (some a) = some boundary.token := by
      rw [Definition.cursorAt, Option.bind_some, hb, Option.map_some]
    have hahead : d.behind sort filter (some (boundary.seek (d.table.column sort.key) d.identity sort.direction)) rows =
        d.ahead sort filter (some a) rows := by
      refine congrArg (d.walkOrder sort).sort (List.filter_congr ?_)
      intro r hr
      obtain ⟨hr, hadmits⟩ := List.mem_filter.1 hr
      rw [Option.all_some, Bool.eq_iff_iff, decide_eq_true_iff]
      exact h.seek_iff_lt hcivil ha (hrows r hr hadmits) hb
    rw [hcursor, Definition.visit_token_eq hexposed limit filter rows (h.token_fits a boundary ha hb),
      h.carried_eq_self hcivil ha hb, hahead]

omit [DecidableEq κ] in
/-- A page with a proper limit serves all rows ahead and has no cursor, or it serves as many as its limit and has the cursor of
the last of them. -/
theorem first_ahead_cases (h : Regular held (d.table.column sort.key) d.identity) (position : Option ρ)
    {filter : Option Predicate} {rows : List ρ} (hrows : ∀ r ∈ rows, Predicate.admits filter r = true → held r) {limit : UInt32}
    (hlimit : 1 ≤ limit.toNat ∧ limit.toNat < 4294967295) :
    ((d.ahead sort filter position rows).length ≤ limit.toNat ∧
      Page.first (d.table.column sort.key) d.identity limit (d.ahead sort filter position rows) =
        ⟨d.ahead sort filter position rows, ⟨false, none⟩⟩) ∨
    (limit.toNat < (d.ahead sort filter position rows).length ∧
      ∃ last boundary, ((d.ahead sort filter position rows).take limit.toNat).getLast? = some last ∧ held last ∧
        d.cursorAt sort (some last) = some (Boundary.token boundary) ∧
        Page.first (d.table.column sort.key) d.identity limit (d.ahead sort filter position rows) =
          ⟨(d.ahead sort filter position rows).take limit.toNat, ⟨true, d.cursorAt sort (some last)⟩⟩) := by
  rcases Nat.lt_or_ge limit.toNat (d.ahead sort filter position rows).length with hlt | hle
  · refine .inr ⟨hlt, ?_⟩
    obtain ⟨last, hlast⟩ := Page.exists_getLast?_take hlimit.1 (Nat.le_of_lt hlt)
    obtain ⟨hmem, hadmits, -⟩ := Definition.mem_ahead.1 (List.mem_of_mem_take (List.mem_of_getLast? hlast))
    have hheld := hrows last hmem hadmits
    obtain ⟨boundary, hb⟩ := h.exists_ofRow? hheld
    refine ⟨last, boundary, hlast, hheld, ?_, ?_⟩
    · rw [Definition.cursorAt, Option.bind_some, hb, Option.map_some]
    · rw [Page.first_of_lt (Window.ne_maxWord hlimit.2) hlt, hlast]
      rfl
  · exact .inl ⟨hle, Page.first_of_le hle⟩

end Regular

/-! ## A small list -/

/-- A person whose name and identity fit into a token. -/
def Sample.IsBrief (r : Record) : Prop :=
  ∃ label name id, r = person label name id ∧ (Boundary.token ⟨.text name, .text id⟩).utf8ByteSize ≤ Boundary.maxTokenLength

/-- People are regular rows as long as their names and identities are short. -/
theorem Sample.regular_people {held : Record → Prop} (h : ∀ r, held r → IsBrief r) : Regular held ⟨"name"⟩ ⟨"id"⟩ := by
  have hname : ∀ label name id, Row.field (person label name id) ⟨"name"⟩ = some (.text name) := fun _ _ _ => rfl
  have hid : ∀ label name id, Row.field (person label name id) ⟨"id"⟩ = some (.text id) := fun _ _ _ => rfl
  constructor
  · intro r hr
    obtain ⟨label, name, id, rfl, -⟩ := h r hr
    exact ⟨rfl, rfl⟩
  · refine Value.orderly_of_text ?_
    rintro v ⟨r, hr, hv⟩
    obtain ⟨label, name, id, rfl, -⟩ := h r hr
    exact ⟨name, Option.some.inj (hv.symm.trans (hname label name id))⟩
  · refine Value.orderly_of_text ?_
    rintro v ⟨r, hr, hv⟩
    obtain ⟨label, name, id, rfl, -⟩ := h r hr
    exact ⟨id, Option.some.inj (hv.symm.trans (hid label name id))⟩
  · intro r boundary hr hb
    obtain ⟨label, name, id, rfl, hfits⟩ := h r hr
    cases hb
    exact hfits

/-- Names and identities of people are texts, so they are no leap seconds. -/
theorem Sample.civil_people {held : Record → Prop} (h : ∀ r, held r → IsBrief r) : Civil held ⟨"name"⟩ ⟨"id"⟩ := by
  intro r boundary hr hb
  obtain ⟨label, name, id, rfl, -⟩ := h r hr
  cases hb
  exact ⟨Value.isCivil_of_kind nofun, Value.isCivil_of_kind nofun⟩

end Keyset
