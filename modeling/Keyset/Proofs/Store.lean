import Keyset.Proofs.Listing
import Keyset.Store
import Mathlib.Logic.Relation

/-!
# Sessions with a store

Whatever the steps of a session are, a label stays the name of one row, and labels that are to be given are new
(`Store.isLabelled_of_session`). Requests change nothing but the cursor that the client holds, and of the definition nothing changes
but the policy (`Store.definition_of_session`).
-/

namespace Keyset.Store

variable [DecidableEq κ] {s s' : Store κ}

/-- The steps of a session that do not fail. -/
inductive Step (s : Store κ) : Store κ → Prop where
  | insert (values : List (Column × Value)) : Step s (s.insert values)
  | erase (label : Nat) : Step s (s.erase label)
  | set (label : Nat) (column : Column) (value : Option Value) : Step s (s.set label column value)
  | setPolicy {text : String} {s' : Store κ} (h : s.setPolicy text = .ok s') : Step s s'
  | page {inquiry : Inquiry} {cursor : Option String} {page : Page Record CursorInfo} {s' : Store κ}
      (h : s.page inquiry cursor = .ok (page, s')) : Step s s'
  | walk (inquiry : Inquiry) (pages : Nat) : Step s (s.walk inquiry pages).2

omit [DecidableEq κ] in
/-- A policy that is set changes the definition only. -/
theorem exists_of_setPolicy {text : String} (h : s.setPolicy text = .ok s') :
    ∃ policy d, s.definition.withPolicy policy = .ok d ∧ s' = { s with definition := d } := by
  obtain ⟨policy, -, h⟩ := Except.exists_of_bind_eq_ok h
  obtain ⟨d, hd, h⟩ := Except.exists_of_bind_eq_ok h
  cases h
  exact ⟨policy, d, Except.eq_ok_of_mapError hd, rfl⟩

theorem eq_of_page {inquiry : Inquiry} {cursor : Option String} {page : Page Record CursorInfo}
    (h : s.page inquiry cursor = .ok (page, s')) : s' = { s with cursor := page.pagination.nextCursor } := by
  obtain ⟨page, -, h⟩ := Except.exists_of_bind_eq_ok h
  cases h
  rfl

theorem exists_of_walk (s : Store κ) (inquiry : Inquiry) (pages : Nat) :
    ∃ cursor, (s.walk inquiry pages).2 = { s with cursor } := by
  rw [walk]
  dsimp only
  split
  · exact ⟨s.cursor, rfl⟩
  · exact ⟨_, rfl⟩

/-! ## Labels -/

/-- A store whose rows have labels of their own, all of which were given before. -/
structure IsLabelled (s : Store κ) : Prop where
  distinct : s.records.Pairwise fun r r' => r.label ≠ r'.label
  lt_nextLabel : ∀ r ∈ s.records, r.label < s.nextLabel

omit [DecidableEq κ] in
theorem label_set (record : Record) (column : Column) (value : Option Value) : (record.set column value).label = record.label := by
  cases value <;> rfl

/-- No step gives a label twice. -/
theorem Step.isLabelled (h : Step s s') (hs : s.IsLabelled) : s'.IsLabelled := by
  cases h with
  | insert values =>
    constructor
    · refine List.pairwise_append.2 ⟨hs.distinct, List.pairwise_singleton _ _, ?_⟩
      intro r hr new hnew
      rw [List.mem_singleton.1 hnew]
      exact Nat.ne_of_lt (hs.lt_nextLabel r hr)
    · intro r hr
      rcases List.mem_append.1 hr with hr | hr
      · exact Nat.lt_succ_of_lt (hs.lt_nextLabel r hr)
      · rw [List.mem_singleton.1 hr]
        exact Nat.lt_succ_self _
  | erase label =>
    exact ⟨hs.distinct.filter _, fun r hr => hs.lt_nextLabel r (List.mem_of_mem_filter hr)⟩
  | set label column value =>
    have hlabel : ∀ r : Record, (if r.label = label then r.set column value else r).label = r.label := by
      intro r
      split
      · exact label_set r column value
      · rfl
    constructor
    · refine List.pairwise_map.2 (hs.distinct.imp ?_)
      intro r r' hne
      rw [hlabel, hlabel]
      exact hne
    · intro r hr
      obtain ⟨old, hold, rfl⟩ := List.mem_map.1 hr
      rw [hlabel]
      exact hs.lt_nextLabel old hold
  | setPolicy h =>
    obtain ⟨policy, d, -, rfl⟩ := exists_of_setPolicy h
    exact ⟨hs.distinct, hs.lt_nextLabel⟩
  | page h =>
    rw [eq_of_page h]
    exact ⟨hs.distinct, hs.lt_nextLabel⟩
  | walk inquiry pages =>
    obtain ⟨cursor, hwalk⟩ := s.exists_of_walk inquiry pages
    rw [hwalk]
    exact ⟨hs.distinct, hs.lt_nextLabel⟩

omit [DecidableEq κ] in
/-- At the beginning the labels are the places of the rows. -/
theorem isLabelled_ofRows (d : Definition κ) (rows : List (List (Column × Value))) : (ofRows d rows).IsLabelled := by
  constructor
  · rw [List.pairwise_iff_getElem]
    intro i j hi hj hlt
    simp only [ofRows, List.getElem_mapIdx]
    exact Nat.ne_of_lt hlt
  · intro r hr
    obtain ⟨i, hi, rfl⟩ := List.mem_mapIdx.1 hr
    exact hi

/-- In every session each row keeps a label of its own, and the next label is new. -/
theorem isLabelled_of_session (d : Definition κ) (rows : List (List (Column × Value))) {s : Store κ}
    (h : Relation.ReflTransGen Step (ofRows d rows) s) : s.IsLabelled := by
  induction h with
  | refl => exact isLabelled_ofRows d rows
  | tail _ hstep ih => exact hstep.isLabelled ih

/-! ## The definition -/

/-- No step changes what a list is sorted by, its identity or its standard sort. -/
theorem Step.definition_eq (h : Step s s') : s'.definition.table = s.definition.table ∧
    s'.definition.identity = s.definition.identity ∧ s'.definition.defaultSort = s.definition.defaultSort := by
  cases h with
  | insert => exact ⟨rfl, rfl, rfl⟩
  | erase => exact ⟨rfl, rfl, rfl⟩
  | set => exact ⟨rfl, rfl, rfl⟩
  | setPolicy h =>
    obtain ⟨policy, d, hd, rfl⟩ := exists_of_setPolicy h
    have hframe := s.definition.withPolicy_frame policy
    rw [hd] at hframe
    exact hframe
  | page h =>
    rw [eq_of_page h]
    exact ⟨rfl, rfl, rfl⟩
  | walk inquiry pages =>
    obtain ⟨cursor, hwalk⟩ := s.exists_of_walk inquiry pages
    rw [hwalk]
    exact ⟨rfl, rfl, rfl⟩

/-- In every session the definition stays what it was but for the policy. -/
theorem definition_of_session (h : Relation.ReflTransGen Step s s') : s'.definition.table = s.definition.table ∧
    s'.definition.identity = s.definition.identity ∧ s'.definition.defaultSort = s.definition.defaultSort := by
  induction h with
  | refl => exact ⟨rfl, rfl, rfl⟩
  | tail _ hstep ih =>
    obtain ⟨htable, hidentity, hdefault⟩ := hstep.definition_eq
    exact ⟨htable.trans ih.1, hidentity.trans ih.2.1, hdefault.trans ih.2.2⟩

end Keyset.Store
