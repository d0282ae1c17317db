import Keyset.Proofs.Attempt
import Keyset.Proofs.Walk.Ends
import Keyset.Proofs.Walk.Exact

/-!
# Walks through rows without a sort value

Rows that miss the sort value stand before all others in an ascending walk and behind them in a descending one, but no cursor leads to
them, and none leads on from them. So a walk serves all rows exactly when it gets past those without a value on its first page
(`Walk.missing_complete_iff`). Behind that page it is a walk through the rows with a value (`Walk.run_some_eq`).
-/

namespace Keyset

open Std

variable [Row ρ]

namespace Definition

/-- Whether a row has a value to be sorted by. -/
def hasSortValue (d : Definition κ) (sort : SortBy κ) (r : ρ) : Bool :=
  (Row.field r (d.table.column sort.key)).isSome

variable {d : Definition κ} {sort : SortBy κ} {filter : Option Predicate} {rows : List ρ}

theorem field_eq_none {r : ρ} (h : d.hasSortValue sort r = false) : Row.field r (d.table.column sort.key) = none := by
  rw [hasSortValue, Option.isSome_eq_false_iff] at h
  exact Option.isNone_iff_eq_none.1 h

/-! ## The order of the rows -/

/-- A row without a value comes, in the direction of the walk, before one with a value. -/
theorem compare_missing {r s : ρ} (hr : d.hasSortValue sort r = false) (hs : d.hasSortValue sort s = true) :
    (d.walkOrder sort).compare r s = sort.direction.apply .lt := by
  obtain ⟨v, hv⟩ := Option.isSome_iff_exists.1 hs
  rw [walkOrder, Boundary.compare_cursorOrder, field_eq_none hr, hv, RowOrder.compareSlots]
  cases sort.direction <;> rfl

/-- The rows that the caller admits are all ahead at first. -/
theorem ahead_perm (d : Definition κ) (sort : SortBy κ) (filter : Option Predicate) (rows : List ρ) :
    (d.ahead sort filter none rows).Perm (rows.filter (Predicate.admits filter)) := by
  have hall : d.ahead sort filter none rows = (d.walkOrder sort).sort (rows.filter (Predicate.admits filter)) :=
    d.behind_none sort filter rows
  rw [hall]
  exact (d.walkOrder sort).sort_perm _

/-- The rows that the caller admits and that have a value to be sorted by, in order. -/
def withValue (d : Definition κ) (sort : SortBy κ) (filter : Option Predicate) (rows : List ρ) : List ρ :=
  d.ahead sort filter none (rows.filter (d.hasSortValue sort))

/-- The rows that the caller admits and that miss the value, in order. -/
def withoutValue (d : Definition κ) (sort : SortBy κ) (filter : Option Predicate) (rows : List ρ) : List ρ :=
  d.ahead sort filter none (rows.filter fun r => !d.hasSortValue sort r)

theorem mem_ahead_filter {p : ρ → Bool} {r : ρ} :
    r ∈ d.ahead sort filter none (rows.filter p) ↔ r ∈ d.ahead sort filter none rows ∧ p r = true := by
  simp only [mem_ahead, List.mem_filter]
  tauto

/-- Sorting a part changes nothing but places. -/
theorem ahead_filter_perm (d : Definition κ) (sort : SortBy κ) (filter : Option Predicate) (rows : List ρ) (p : ρ → Bool) :
    (d.ahead sort filter none (rows.filter p)).Perm ((rows.filter (Predicate.admits filter)).filter p) := by
  rw [List.filter_comm]
  exact d.ahead_perm sort filter (rows.filter p)

theorem hasSortValue_of_mem {r : ρ} (h : r ∈ d.withValue sort filter rows) : d.hasSortValue sort r = true :=
  (mem_ahead_filter.1 h).2

theorem not_hasSortValue_of_mem {r : ρ} (h : r ∈ d.withoutValue sort filter rows) : d.hasSortValue sort r = false := by
  simpa using (mem_ahead_filter.1 h).2

theorem length_ahead_filter (d : Definition κ) (sort : SortBy κ) (filter : Option Predicate) (rows : List ρ) (p : ρ → Bool) :
    (d.ahead sort filter none (rows.filter p)).length = (rows.filter (Predicate.admits filter)).countP p := by
  rw [(d.ahead_filter_perm sort filter rows p).length_eq, ← List.countP_eq_length_filter]

theorem length_ahead (d : Definition κ) (sort : SortBy κ) (filter : Option Predicate) (rows : List ρ) :
    (d.ahead sort filter none rows).length =
      (rows.filter (Predicate.admits filter)).countP (d.hasSortValue sort) +
        (rows.filter (Predicate.admits filter)).countP fun r => !d.hasSortValue sort r := by
  rw [(d.ahead_perm sort filter rows).length_eq, List.length_eq_countP_add_countP (d.hasSortValue sort)]
  simp only [decide_not, Bool.decide_eq_true]

/-- A part of the rows in order holds each row that the caller admits when it is as long. -/
theorem perm_iff_length_eq {l : List ρ} (h : l.Sublist (d.ahead sort filter none rows)) :
    l.Perm (rows.filter (Predicate.admits filter)) ↔ l.length = (d.ahead sort filter none rows).length := by
  have hperm := d.ahead_perm sort filter rows
  constructor
  · intro hl
    rw [hperm.length_eq, hl.length_eq]
  · intro hlength
    rw [h.eq_of_length hlength]
    exact hperm

/-- The rows with a value are those with a value among themselves and any without one. -/
theorem filter_withValue_append {missing : List ρ} (h : ∀ r ∈ missing, r ∈ d.withoutValue sort filter rows) :
    (d.withValue sort filter rows ++ missing).filter (d.hasSortValue sort) = d.withValue sort filter rows := by
  have hself : (d.withValue sort filter rows).filter (d.hasSortValue sort) = d.withValue sort filter rows := by
    rw [List.filter_eq_self]
    intro r hr
    exact hasSortValue_of_mem hr
  have hnone : missing.filter (d.hasSortValue sort) = [] := by
    rw [List.filter_eq_nil_iff]
    intro r hr
    rw [not_hasSortValue_of_mem (h r hr)]
    exact Bool.false_ne_true
  rw [List.filter_append, hself, hnone, List.append_nil]

/-- When all rows of a part stand before those of the rest, the rows in order are the part in order and then the rest. -/
theorem ahead_eq_append
    (hdistinct : (rows.filter (Predicate.admits filter)).Pairwise fun r s => Row.field r d.identity ≠ Row.field s d.identity)
    {p q : ρ → Bool} (hrest : ∀ r, q r = !p r)
    (hbefore : ∀ r s, p r = true → q s = true → (d.walkOrder sort).compare r s = .lt) :
    d.ahead sort filter none rows = d.ahead sort filter none (rows.filter p) ++ d.ahead sort filter none (rows.filter q) := by
  have hpart : ∀ p : ρ → Bool, (d.ahead sort filter none (rows.filter p)).Pairwise fun r s =>
      (d.walkOrder sort).compare r s = .lt := by
    intro p
    exact pairwise_ahead sort (hdistinct.sublist (List.filter_sublist.filter _)) none
  refine RowOrder.eq_of_pairwise_lt (pairwise_ahead sort hdistinct none) (List.pairwise_append.2 ⟨hpart p, hpart q, ?_⟩) ?_
  · intro r hr s hs
    exact hbefore r s (mem_ahead_filter.1 hr).2 (mem_ahead_filter.1 hs).2
  · intro r
    rw [List.mem_append, mem_ahead_filter, mem_ahead_filter, hrest]
    cases p r <;> simp

/-- In an ascending walk the rows without a value come first. -/
theorem ahead_of_asc (hdirection : sort.direction = .asc)
    (hdistinct : (rows.filter (Predicate.admits filter)).Pairwise fun r s => Row.field r d.identity ≠ Row.field s d.identity) :
    d.ahead sort filter none rows = d.withoutValue sort filter rows ++ d.withValue sort filter rows := by
  refine ahead_eq_append hdistinct (fun r => (Bool.not_not _).symm) ?_
  intro r s hr hs
  rw [compare_missing (by simpa using hr) hs, hdirection]
  rfl

/-- In a descending walk the rows without a value come last. -/
theorem ahead_of_desc (hdirection : sort.direction = .desc)
    (hdistinct : (rows.filter (Predicate.admits filter)).Pairwise fun r s => Row.field r d.identity ≠ Row.field s d.identity) :
    d.ahead sort filter none rows = d.withValue sort filter rows ++ d.withoutValue sort filter rows := by
  refine ahead_eq_append hdistinct (fun r => rfl) ?_
  intro r s hr hs
  have hgt := compare_missing (by simpa using hs) hr
  rw [hdirection] at hgt
  exact OrientedCmp.gt_iff_lt.1 hgt

/-! ## Behind a cursor -/

variable [DecidableEq κ]

/-- A cursor leads to rows with a value only. -/
theorem visit_some_eq (hexposed : sort.key ∈ d.table.exposed) (limit : UInt32) (filter : Option Predicate) (rows : List ρ)
    (cursor : String) :
    d.visit sort limit filter rows (some cursor) = d.visit sort limit filter (rows.filter (d.hasSortValue sort)) (some cursor) := by
  rw [visit_eq hexposed, visit_eq hexposed]
  cases hseek : Query.seekOf (d.table.column sort.key) d.identity sort.direction (some cursor) with
  | error fault => rfl
  | ok seek =>
    have hvalue : ∀ r : ρ, Predicate.admits seek r = true → d.hasSortValue sort r = true := by
      intro r hadmits
      obtain ⟨boundary, -, hboundary⟩ := Except.exists_of_bind_eq_ok hseek
      cases hboundary
      obtain ⟨v, hv, -⟩ := Boundary.holds_seek.1 hadmits
      rw [hasSortValue, hv, Option.isSome_some]
    have hbehind : d.behind sort filter seek rows = d.behind sort filter seek (rows.filter (d.hasSortValue sort)) := by
      refine congrArg (d.walkOrder sort).sort ?_
      simp only [List.filter_filter]
      refine List.filter_congr ?_
      intro r _
      cases hadmits : Predicate.admits seek r with
      | false => rfl
      | true => rw [hvalue r hadmits, Bool.and_true]
    exact congrArg (fun ahead => Except.ok (Page.first (d.table.column sort.key) d.identity limit ahead)) hbehind

/-- At first all rows that the caller admits are ahead. -/
theorem visit_start_eq (hexposed : sort.key ∈ d.table.exposed) (limit : UInt32) (filter : Option Predicate) (rows : List ρ) :
    d.visit sort limit filter rows none =
      .ok (Page.first (d.table.column sort.key) d.identity limit (d.ahead sort filter none rows)) :=
  visit_none_eq hexposed limit filter rows

end Definition

namespace Walk

variable [DecidableEq κ] {d : Definition κ} {sort : SortBy κ} {filter : Option Predicate}

/-- Behind its first page a walk is one through the rows with a value. -/
theorem run_some_eq (hexposed : sort.key ∈ d.table.exposed) (limit : UInt32) (rows : List ρ) (visits number : Nat)
    (cursor : String) :
    run (fun _ => d.visit sort limit filter rows) visits number (some cursor) =
      run (fun _ => d.visit sort limit filter (rows.filter (d.hasSortValue sort))) visits number (some cursor) := by
  induction visits generalizing number cursor with
  | zero => rfl
  | succ visits ih =>
    have hsame := Definition.visit_some_eq hexposed limit filter rows cursor
    cases hvisit : d.visit sort limit filter (rows.filter (d.hasSortValue sort)) (some cursor) with
    | error fault => rw [run_of_error visits (hsame.trans hvisit), run_of_error visits hvisit]
    | ok page =>
      cases hnext : page.pagination.nextCursor with
      | none => rw [run_of_last visits (hsame.trans hvisit) hnext, run_of_last visits hvisit hnext]
      | some next => rw [run_of_next visits (hsame.trans hvisit) hnext, run_of_next visits hvisit hnext, ih]

/-! ## From the first page on -/

omit [Row ρ] [DecidableEq κ] in
/-- A walk that served rows in pages is finished. -/
theorem Serves.finished {walk : Walk ρ ε} {limit : Nat} {rows : List ρ} (h : walk.Serves limit rows) : walk.Finished where
  error_eq_none := h.error_eq_none
  last := by
    have hlast := List.getLast?_eq_some_getLast h.pages_ne_nil
    exact ⟨_, hlast, (h.last _ hlast).2⟩

omit [Row ρ] in
/-- More rows fill no fewer pages. -/
theorem pageCount_mono (limit : Nat) {length length' : Nat} (h : length ≤ length') :
    pageCount limit length ≤ pageCount limit length' := by
  have hdiv : (length + limit - 1) / limit ≤ (length' + limit - 1) / limit := Nat.div_le_div_right (by omega)
  rw [pageCount, pageCount]
  omega

variable {limit : UInt32} {rows : List ρ}

/-- Rows that fit into the first page are all served by it. -/
theorem run_of_fits (hexposed : sort.key ∈ d.table.exposed) (hle : (d.ahead sort filter none rows).length ≤ limit.toNat) (visits : Nat) :
    let walk := run (fun _ => d.visit sort limit filter rows) (visits + 1) 0 none
    walk.Finished ∧ walk.rows = d.ahead sort filter none rows := by
  have hvisit := Definition.visit_start_eq hexposed limit filter rows
  rw [Page.first_of_le hle] at hvisit
  rw [run_of_last visits hvisit rfl]
  exact ⟨⟨rfl, _, rfl, rfl⟩, List.append_nil _⟩

/-- A first page that ends with a row without a value is the only one. -/
theorem run_of_missing (hexposed : sort.key ∈ d.table.exposed) (hlimit : 1 ≤ limit.toNat ∧ limit.toNat < 4294967295)
    (hlt : limit.toNat < (d.ahead sort filter none rows).length) {last : ρ}
    (hlast : ((d.ahead sort filter none rows).take limit.toNat).getLast? = some last)
    (hmissing : d.hasSortValue sort last = false) (visits : Nat) :
    let walk := run (fun _ => d.visit sort limit filter rows) (visits + 1) 0 none
    walk.Finished ∧ walk.rows = (d.ahead sort filter none rows).take limit.toNat := by
  have hnone : Boundary.ofRow? (d.table.column sort.key) d.identity last = none := by
    rw [Boundary.ofRow?, Definition.field_eq_none hmissing]
  have hvisit := Definition.visit_start_eq hexposed limit filter rows
  rw [Page.first_of_lt (Window.ne_maxWord hlimit.2) hlt, hlast, Option.bind_some, hnone, Option.map_none] at hvisit
  rw [run_of_last visits hvisit rfl]
  exact ⟨⟨rfl, _, rfl, rfl⟩, List.append_nil _⟩

/-- Behind a first page that ends with a row with a value the walk serves the rows with a value behind that row. -/
theorem run_of_present (hexposed : sort.key ∈ d.table.exposed)
    (h : Regular (fun r => (r ∈ rows ∧ Predicate.admits filter r = true) ∧ d.hasSortValue sort r = true)
      (d.table.column sort.key) d.identity)
    (hcivil : Civil (fun r => (r ∈ rows ∧ Predicate.admits filter r = true) ∧ d.hasSortValue sort r = true)
      (d.table.column sort.key) d.identity)
    (hdistinct : (rows.filter (Predicate.admits filter)).Pairwise fun r s => Row.field r d.identity ≠ Row.field s d.identity)
    (hlimit : 1 ≤ limit.toNat ∧ limit.toNat < 4294967295)
    (hlt : limit.toNat < (d.ahead sort filter none rows).length) {last : ρ} {served rest : List ρ}
    (hlast : ((d.ahead sort filter none rows).take limit.toNat).getLast? = some last)
    (hsplit : d.withValue sort filter rows = served ++ rest) (hserved : served.getLast? = some last)
    {visits : Nat} (hvisits : pageCount limit.toNat rest.length ≤ visits) :
    let walk := run (fun _ => d.visit sort limit filter rows) (visits + 1) 0 none
    walk.Finished ∧ walk.rows = (d.ahead sort filter none rows).take limit.toNat ++ rest := by
  have hheld : ∀ r ∈ rows.filter (d.hasSortValue sort), Predicate.admits filter r = true →
      (r ∈ rows ∧ Predicate.admits filter r = true) ∧ d.hasSortValue sort r = true := by
    intro r hr hadmits
    obtain ⟨hr, hvalue⟩ := List.mem_filter.1 hr
    exact ⟨⟨hr, hadmits⟩, hvalue⟩
  have hmem : last ∈ d.withValue sort filter rows := by
    rw [hsplit]
    exact List.mem_append_left _ (List.mem_of_getLast? hserved)
  obtain ⟨hmem, hadmits, -⟩ := Definition.mem_ahead.1 hmem
  obtain ⟨boundary, hb⟩ := h.exists_ofRow? (hheld last hmem hadmits)
  have hvisit := Definition.visit_start_eq hexposed limit filter rows
  rw [Page.first_of_lt (Window.ne_maxWord hlimit.2) hlt, hlast, Option.bind_some, hb, Option.map_some] at hvisit
  have hcursor : d.cursorAt sort served.getLast? = some boundary.token := by
    rw [hserved, Definition.cursorAt, Option.bind_some, hb, Option.map_some]
  have hrest := serves_of_run h hcivil hexposed hlimit hheld (hdistinct.sublist (List.filter_sublist.filter _)) visits 1 hsplit hvisits
  rw [hcursor, ← run_some_eq hexposed] at hrest
  rw [run_of_next visits hvisit rfl]
  refine ⟨hrest.finished.cons _ _, ?_⟩
  have hrows : (run (fun _ => d.visit sort limit filter rows) visits (0 + 1) (some boundary.token)).pages.flatMap Page.data = rest :=
    hrest.rows_eq
  rw [Walk.rows, List.flatMap_cons, hrows]

/-! ## The rows of all pages -/

omit [Row ρ] in
/-- Where the first rows of two lists put end to end stop: in the second, or no later than the first. -/
theorem take_append_cases {first second : List ρ} {limit : Nat} (hlimit : 1 ≤ limit) (hlt : limit < (first ++ second).length) :
    (first.length < limit ∧ (first ++ second).take limit = first ++ second.take (limit - first.length) ∧
      ∃ last, (second.take (limit - first.length)).getLast? = some last ∧
        ((first ++ second).take limit).getLast? = some last) ∨
    (limit ≤ first.length ∧ (first ++ second).take limit = first.take limit ∧
      ∃ last, (first.take limit).getLast? = some last) := by
  rw [List.length_append] at hlt
  rcases Nat.lt_or_ge first.length limit with hfirst | hfirst
  · have htake : (first ++ second).take limit = first ++ second.take (limit - first.length) := by
      rw [List.take_append, List.take_of_length_le (Nat.le_of_lt hfirst)]
    have hleft : limit - first.length ≤ second.length := by omega
    obtain ⟨last, hsecond⟩ := Page.exists_getLast?_take (by omega) hleft
    refine .inl ⟨hfirst, htake, last, hsecond, ?_⟩
    rw [htake, List.getLast?_append, hsecond, Option.some_or]
  · exact .inr ⟨hfirst, List.take_append_of_le_length hfirst, Page.exists_getLast?_take hlimit hfirst⟩

/-- An ascending walk serves all rows if those without a value leave room on its first page, and otherwise that page only. -/
theorem rows_of_asc (hexposed : sort.key ∈ d.table.exposed) (hdirection : sort.direction = .asc)
    (h : Regular (fun r => (r ∈ rows ∧ Predicate.admits filter r = true) ∧ d.hasSortValue sort r = true)
      (d.table.column sort.key) d.identity)
    (hcivil : Civil (fun r => (r ∈ rows ∧ Predicate.admits filter r = true) ∧ d.hasSortValue sort r = true)
      (d.table.column sort.key) d.identity)
    (hdistinct : (rows.filter (Predicate.admits filter)).Pairwise fun r s => Row.field r d.identity ≠ Row.field s d.identity)
    (hlimit : 1 ≤ limit.toNat ∧ limit.toNat < 4294967295) {visits : Nat}
    (hvisits : pageCount limit.toNat (d.ahead sort filter none rows).length ≤ visits) :
    let walk := run (fun _ => d.visit sort limit filter rows) visits 0 none
    walk.Finished ∧ walk.rows =
      if (d.withoutValue sort filter rows).length < limit.toNat then d.ahead sort filter none rows
      else (d.withoutValue sort filter rows).take limit.toNat := by
  obtain ⟨visits, rfl⟩ := Nat.exists_eq_add_of_le' (Nat.le_trans (Nat.le_max_left _ _) hvisits)
  have hsplit := Definition.ahead_of_asc hdirection hdistinct
  have hlength := congrArg List.length hsplit
  rw [List.length_append] at hlength
  rcases Nat.lt_or_ge limit.toNat (d.ahead sort filter none rows).length with hlt | hle
  · rw [pageCount_sub hlimit.1 hlt] at hvisits
    rcases take_append_cases hlimit.1 (hsplit ▸ hlt) with ⟨hroom, htake, last, hserved, hlast⟩ | ⟨hfull, htake, last, hlast⟩
    · rw [← hsplit] at hlast htake
      have hleft : pageCount limit.toNat
          ((d.withValue sort filter rows).drop (limit.toNat - (d.withoutValue sort filter rows).length)).length ≤ visits := by
        refine Nat.le_trans (pageCount_mono _ ?_) (Nat.le_of_succ_le_succ hvisits)
        rw [List.length_drop]
        omega
      obtain ⟨hfinished, hrows⟩ := run_of_present hexposed h hcivil hdistinct hlimit hlt hlast (List.take_append_drop _ _).symm hserved hleft
      refine ⟨hfinished, ?_⟩
      rw [hrows, htake, if_pos hroom, List.append_assoc, List.take_append_drop, hsplit]
    · rw [← hsplit] at htake
      have hmissing := Definition.not_hasSortValue_of_mem (List.mem_of_mem_take (List.mem_of_getLast? hlast))
      rw [← htake] at hlast
      obtain ⟨hfinished, hrows⟩ := run_of_missing hexposed hlimit hlt hlast hmissing visits
      refine ⟨hfinished, ?_⟩
      rw [hrows, if_neg (Nat.not_lt.2 hfull), htake]
  · obtain ⟨hfinished, hrows⟩ := run_of_fits hexposed hle visits
    refine ⟨hfinished, hrows.trans ?_⟩
    split
    · rfl
    · have hnone : d.withValue sort filter rows = [] := List.eq_nil_of_length_eq_zero (by omega)
      rw [hsplit, hnone, List.append_nil, List.take_of_length_le (by omega)]

/-- A descending walk serves the first page only, if rows without a value are on it, and otherwise the rows with a value. -/
theorem rows_of_desc (hexposed : sort.key ∈ d.table.exposed) (hdirection : sort.direction = .desc)
    (h : Regular (fun r => (r ∈ rows ∧ Predicate.admits filter r = true) ∧ d.hasSortValue sort r = true)
      (d.table.column sort.key) d.identity)
    (hcivil : Civil (fun r => (r ∈ rows ∧ Predicate.admits filter r = true) ∧ d.hasSortValue sort r = true)
      (d.table.column sort.key) d.identity)
    (hdistinct : (rows.filter (Predicate.admits filter)).Pairwise fun r s => Row.field r d.identity ≠ Row.field s d.identity)
    (hlimit : 1 ≤ limit.toNat ∧ limit.toNat < 4294967295) {visits : Nat}
    (hvisits : pageCount limit.toNat (d.ahead sort filter none rows).length ≤ visits) :
    let walk := run (fun _ => d.visit sort limit filter rows) visits 0 none
    walk.Finished ∧ walk.rows =
      d.withValue sort filter rows ++ (d.withoutValue sort filter rows).take (limit.toNat - (d.withValue sort filter rows).length) := by
  obtain ⟨visits, rfl⟩ := Nat.exists_eq_add_of_le' (Nat.le_trans (Nat.le_max_left _ _) hvisits)
  have hsplit := Definition.ahead_of_desc hdirection hdistinct
  have hlength := congrArg List.length hsplit
  rw [List.length_append] at hlength
  rcases Nat.lt_or_ge limit.toNat (d.ahead sort filter none rows).length with hlt | hle
  · rw [pageCount_sub hlimit.1 hlt] at hvisits
    rcases take_append_cases hlimit.1 (hsplit ▸ hlt) with ⟨hroom, htake, last, hserved, hlast⟩ | ⟨hfull, htake, last, hserved⟩
    · rw [← hsplit] at hlast htake
      have hmissing := Definition.not_hasSortValue_of_mem (List.mem_of_mem_take (List.mem_of_getLast? hserved))
      obtain ⟨hfinished, hrows⟩ := run_of_missing hexposed hlimit hlt hlast hmissing visits
      exact ⟨hfinished, hrows.trans htake⟩
    · rw [← hsplit] at htake
      have hleft : pageCount limit.toNat ((d.withValue sort filter rows).drop limit.toNat).length ≤ visits := by
        refine Nat.le_trans (pageCount_mono _ ?_) (Nat.le_of_succ_le_succ hvisits)
        rw [List.length_drop]
        omega
      obtain ⟨hfinished, hrows⟩ := run_of_present hexposed h hcivil hdistinct hlimit hlt (htake ▸ hserved)
        (List.take_append_drop _ _).symm hserved hleft
      refine ⟨hfinished, ?_⟩
      rw [hrows, htake, List.take_append_drop, Nat.sub_eq_zero_of_le hfull, List.take_zero, List.append_nil]
  · obtain ⟨hfinished, hrows⟩ := run_of_fits hexposed hle visits
    refine ⟨hfinished, hrows.trans ?_⟩
    rw [hsplit, List.take_of_length_le (by omega)]

/-- Among rows of different identities of which some miss the sort value, and the others are regular and hold no leap seconds inside
a minute: a walk is finished, and it serves each row that the caller admits once exactly when none misses the value, or all fit into
one page, or those that miss it leave room on the first page of an ascending walk. A descending walk serves the rows with a value in
any case. -/
theorem missing_complete_iff (d : Definition κ) (sort : SortBy κ) (hexposed : sort.key ∈ d.table.exposed) (limit : UInt32)
    (hlimit : 1 ≤ limit.toNat ∧ limit.toNat < 4294967295) (filter : Option Predicate) (rows : List ρ)
    (hregular : Regular (fun r => (r ∈ rows ∧ Predicate.admits filter r = true) ∧ d.hasSortValue sort r = true)
      (d.table.column sort.key) d.identity)
    (hcivil : Civil (fun r => (r ∈ rows ∧ Predicate.admits filter r = true) ∧ d.hasSortValue sort r = true)
      (d.table.column sort.key) d.identity)
    (hdistinct : (rows.filter (Predicate.admits filter)).Pairwise fun r s => Row.field r d.identity ≠ Row.field s d.identity)
    (visits : Nat) (hvisits : pageCount limit.toNat (rows.filter (Predicate.admits filter)).length ≤ visits) :
    let matching := rows.filter (Predicate.admits filter)
    let present := matching.countP (d.hasSortValue sort)
    let missing := matching.countP fun r => !d.hasSortValue sort r
    let walk := run (fun _ => d.visit sort limit filter rows) visits 0 none
    walk.Finished ∧
      (walk.rows.Perm matching ↔
        missing = 0 ∨ present + missing ≤ limit.toNat ∨ sort.direction = .asc ∧ missing < limit.toNat) ∧
      (sort.direction = .desc → (walk.rows.filter (d.hasSortValue sort)).Perm (matching.filter (d.hasSortValue sort))) := by
  intro matching present missing walk
  have hmissing : (d.withoutValue sort filter rows).length = missing := d.length_ahead_filter sort filter rows _
  have hpresent : (d.withValue sort filter rows).length = present := d.length_ahead_filter sort filter rows _
  have hlength : (d.ahead sort filter none rows).length = present + missing := d.length_ahead sort filter rows
  rw [← (d.ahead_perm sort filter rows).length_eq] at hvisits
  cases hdirection : sort.direction with
  | asc =>
    obtain ⟨hfinished, hrows⟩ := rows_of_asc hexposed hdirection hregular hcivil hdistinct hlimit hvisits
    refine ⟨hfinished, ?_, nofun⟩
    have hpart : walk.rows.Sublist (d.ahead sort filter none rows) := by
      rw [hrows]
      split
      · exact .refl _
      · rw [Definition.ahead_of_asc hdirection hdistinct]
        exact (List.take_sublist _ _).trans (List.sublist_append_left _ _)
    rw [Definition.perm_iff_length_eq hpart, hrows, apply_ite List.length, List.length_take, hlength, hmissing]
    split
    case isTrue hroom => exact iff_of_true rfl (.inr (.inr ⟨rfl, hroom⟩))
    case isFalse hfull =>
      simp only [true_and]
      omega
  | desc =>
    obtain ⟨hfinished, hrows⟩ := rows_of_desc hexposed hdirection hregular hcivil hdistinct hlimit hvisits
    refine ⟨hfinished, ?_, ?_⟩
    · have hpart : walk.rows.Sublist (d.ahead sort filter none rows) := by
        rw [hrows, Definition.ahead_of_desc hdirection hdistinct]
        exact (List.Sublist.refl _).append (List.take_sublist _ _)
      rw [Definition.perm_iff_length_eq hpart, hrows, List.length_append, List.length_take, hlength, hpresent, hmissing]
      simp only [reduceCtorEq, false_and, or_false]
      omega
    · intro _
      rw [hrows, Definition.filter_withValue_append fun r => List.mem_of_mem_take]
      exact d.ahead_filter_perm sort filter rows _

end Walk

/-- People of whom one has no name. -/
def Sample.guests : List Record :=
  [person 0 "cid" "3", .mk 1 [(⟨"id"⟩, .text "2")], person 2 "ann" "1"]

/-- By name, two on a page, all guests are served in ascending order, but not in descending order. -/
theorem Walk.missing_complete_iff_guests :
    (run (fun _ => Sample.people.visit ⟨(), .asc⟩ 2 none Sample.guests) 2 0 none).rows.Perm Sample.guests ∧
      ¬ (run (fun _ => Sample.people.visit ⟨(), .desc⟩ 2 none Sample.guests) 2 0 none).rows.Perm Sample.guests := by
  have hguests : ∀ r, (r ∈ Sample.guests ∧ Predicate.admits none r = true) ∧ Sample.people.hasSortValue ⟨(), .asc⟩ r = true →
      Sample.IsBrief r := by
    rintro r ⟨⟨hguest, -⟩, hvalue⟩
    simp only [Sample.guests, List.mem_cons, List.not_mem_nil, or_false] at hguest
    rcases hguest with rfl | rfl | rfl
    · exact ⟨0, "cid", "3", rfl, by decide⟩
    · cases hvalue
    · exact ⟨2, "ann", "1", rfl, by decide⟩
  have hregular := Sample.regular_people hguests
  have hcivil := Sample.civil_people hguests
  constructor
  · exact (missing_complete_iff Sample.people ⟨(), .asc⟩ (List.mem_singleton.2 rfl) 2 (by decide) none Sample.guests hregular hcivil
      (by decide) 2 (by decide)).2.1.2 (by decide)
  · exact mt (missing_complete_iff Sample.people ⟨(), .desc⟩ (List.mem_singleton.2 rfl) 2 (by decide) none Sample.guests hregular
      hcivil (by decide) 2 (by decide)).2.1.1 (by decide)

/-- None of the readings from a leap second inside a minute on misses its time, but an ascending walk does not serve them all. -/
theorem Walk.missing_complete_skips :
    let matching := Sample.fromLeapSecond.filter (Predicate.admits none)
    Regular (fun r => (r ∈ Sample.fromLeapSecond ∧ Predicate.admits none r = true) ∧
      Sample.readings.hasSortValue ⟨false, .asc⟩ r = true) ⟨"time"⟩ ⟨"id"⟩ ∧
    (matching.Pairwise fun r s => Row.field r (Column.mk "id") ≠ Row.field s (Column.mk "id")) ∧
    (matching.countP fun r => !Sample.readings.hasSortValue ⟨false, .asc⟩ r) = 0 ∧
    ¬ (run (fun _ => Sample.readings.visit ⟨false, .asc⟩ 1 none Sample.fromLeapSecond) 3 0 none).rows.Perm matching := by
  refine ⟨Sample.regular_fromLeapSecond fun r hr => hr.1.1, by decide, by decide, ?_⟩
  intro hperm
  have hlength := hperm.length_eq
  rw [Sample.run_fromLeapSecond 1] at hlength
  cases hlength

end Keyset
