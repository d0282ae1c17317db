import Keyset.Proofs.RowOrder

/-!
# Stable sorting

Rows are stably sorted when they are in order, and those that compare equal stand in the sequence in which they were given
(`RowOrder.IsStablySorted`). There is one such list (`RowOrder.eq_of_ties`), whichever way it is come by. So sorting by several
columns is sorting by each of them alone, the least significant one first: `RowOrder.sort_by_columns`.
-/

namespace Keyset.RowOrder

open Std

variable [Row ρ]

/-- The rows that compare equal to a row, in their sequence. -/
def ties (order : RowOrder) (row : ρ) (rows : List ρ) : List ρ :=
  rows.filter fun r => order.compare row r = .eq

/-- Rows in order; those that compare equal to any one row are the ones that were given, in the sequence in which they were. -/
structure IsStablySorted (order : RowOrder) (rows sorted : List ρ) : Prop where
  pairwise_isLE : sorted.Pairwise fun a b => (order.compare a b).isLE = true
  ties_eq : ∀ row, order.ties row sorted = order.ties row rows

/-! ## The list is told by its ties -/

theorem compare_self (order : RowOrder) (row : ρ) : order.compare row row = .eq :=
  ReflCmp.compare_self

theorem mem_ties {order : RowOrder} {row r : ρ} {rows : List ρ} :
    r ∈ order.ties row rows ↔ r ∈ rows ∧ order.compare row r = .eq := by
  simp [ties]

theorem ties_cons_of_eq {order : RowOrder} {row r : ρ} (h : order.compare row r = .eq) (rows : List ρ) :
    order.ties row (r :: rows) = r :: order.ties row rows :=
  List.filter_cons_of_pos (decide_eq_true h)

theorem ties_cons_of_ne {order : RowOrder} {row r : ρ} (h : order.compare row r ≠ .eq) (rows : List ρ) :
    order.ties row (r :: rows) = order.ties row rows :=
  List.filter_cons_of_neg (by simp [h])

/-- Lists with the same ties have the same rows. -/
theorem mem_iff_of_ties {order : RowOrder} {as bs : List ρ} (h : ∀ row, order.ties row as = order.ties row bs) (row : ρ) :
    row ∈ as ↔ row ∈ bs := by
  have hself : ∀ rows, row ∈ order.ties row rows ↔ row ∈ rows := by
    intro rows
    rw [mem_ties, and_iff_left (order.compare_self row)]
  rw [← hself as, h row, hself bs]

/-- In a list in order nothing comes before the first row. -/
theorem isLE_of_mem {order : RowOrder} {a b : ρ} {rows : List ρ}
    (h : (a :: rows).Pairwise fun a b => (order.compare a b).isLE = true) (hb : b ∈ a :: rows) :
    (order.compare a b).isLE = true := by
  rcases List.mem_cons.1 hb with rfl | hb
  · rw [compare_self]
    rfl
  · exact List.rel_of_pairwise_cons h hb

/-- Two lists in order with the same ties are the same. -/
theorem eq_of_ties {order : RowOrder} {as bs : List ρ} (has : as.Pairwise fun a b => (order.compare a b).isLE = true)
    (hbs : bs.Pairwise fun a b => (order.compare a b).isLE = true) (h : ∀ row, order.ties row as = order.ties row bs) :
    as = bs := by
  induction as generalizing bs with
  | nil =>
    cases bs with
    | nil => rfl
    | cons b bs => exact absurd ((mem_iff_of_ties h b).2 List.mem_cons_self) List.not_mem_nil
  | cons a as ih =>
    cases bs with
    | nil => exact absurd ((mem_iff_of_ties h a).1 List.mem_cons_self) List.not_mem_nil
    | cons b bs =>
      have hab := isLE_of_mem has ((mem_iff_of_ties h b).2 List.mem_cons_self)
      have hba := isLE_of_mem hbs ((mem_iff_of_ties h a).1 List.mem_cons_self)
      have htie : order.compare a b = .eq := OrientedCmp.isLE_antisymm hab hba
      -- Both lists begin with the first of the rows that compare equal to `a`.
      have hhead := h a
      rw [ties_cons_of_eq (order.compare_self a), ties_cons_of_eq htie] at hhead
      obtain ⟨rfl, -⟩ := List.cons.inj hhead
      have htail : ∀ row, order.ties row as = order.ties row bs := by
        intro row
        have hrow := h row
        by_cases heq : order.compare row a = .eq
        · rw [ties_cons_of_eq heq, ties_cons_of_eq heq] at hrow
          exact (List.cons.inj hrow).2
        · rw [ties_cons_of_ne heq, ties_cons_of_ne heq] at hrow
          exact hrow
      rw [ih has.of_cons hbs.of_cons htail]

/-! ## Sorting -/

/-- Sorting is stable. -/
theorem isStablySorted_sort (order : RowOrder) (rows : List ρ) : order.IsStablySorted rows (order.sort rows) := by
  refine ⟨pairwise_sort order rows, ?_⟩
  intro row
  have hpairwise : (order.ties row rows).Pairwise fun a b => (order.compare a b).isLE = true := by
    refine List.pairwise_of_forall_mem_list ?_
    intro a ha b hb
    rw [TransCmp.eq_trans (OrientedCmp.eq_symm (mem_ties.1 ha).2) (mem_ties.1 hb).2]
    rfl
  have hsublist : (order.ties row rows).Sublist (order.sort rows) :=
    List.sublist_mergeSort (fun _ _ _ => TransCmp.isLE_trans) (isLE_or_isLE order) hpairwise List.filter_sublist
  have hties : (order.ties row rows).Sublist (order.ties row (order.sort rows)) := by
    have hfilter := hsublist.filter fun r => order.compare row r = .eq
    simpa only [ties, List.filter_filter, Bool.and_self] using hfilter
  exact (hties.eq_of_length ((order.sort_perm rows).filter _).length_eq.symm).symm

/-- Rows that are stably sorted are the sorted rows. -/
theorem IsStablySorted.eq_sort {order : RowOrder} {rows sorted : List ρ} (h : order.IsStablySorted rows sorted) :
    sorted = order.sort rows := by
  have hsort := order.isStablySorted_sort rows
  refine eq_of_ties h.pairwise_isLE hsort.pairwise_isLE ?_
  intro row
  rw [h.ties_eq, hsort.ties_eq]

/-! ## Several columns -/

theorem compare_cons (field : Column × Direction) (fields : List (Column × Direction)) (a b : ρ) :
    compare ⟨field :: fields⟩ a b = (compare ⟨[field]⟩ a b).then (compare ⟨fields⟩ a b) := by
  simp only [compare, compareBy, Ordering.then_eq]

/-- What ties in several columns ties in the first, and in the others. -/
theorem ties_cons (field : Column × Direction) (fields : List (Column × Direction)) (row : ρ) (rows : List ρ) :
    ties ⟨field :: fields⟩ row rows = ties ⟨fields⟩ row (ties ⟨[field]⟩ row rows) := by
  simp only [ties, List.filter_filter]
  refine List.filter_congr ?_
  intro r _
  rw [compare_cons, ← Bool.decide_and, decide_eq_decide, Ordering.then_eq_eq, and_comm]

/-- Rows that are sorted by the less significant columns, and then by one more, are sorted by all of them. -/
theorem IsStablySorted.cons {field : Column × Direction} {fields : List (Column × Direction)} {rows middle sorted : List ρ}
    (h : IsStablySorted ⟨fields⟩ rows middle) (hfield : IsStablySorted ⟨[field]⟩ middle sorted) :
    IsStablySorted ⟨field :: fields⟩ rows sorted := by
  constructor
  · refine List.pairwise_of_forall_sublist ?_
    intro a b hab
    rw [compare_cons]
    have hle := hfield.pairwise_isLE.forall_sublist hab
    cases hcompare : compare ⟨[field]⟩ a b with
    | lt => rfl
    | gt =>
      rw [hcompare] at hle
      cases hle
    | eq =>
      -- Rows that tie in the column have kept the sequence that the other columns gave them.
      have hties : [a, b].Sublist (ties ⟨[field]⟩ a sorted) := by
        have hfilter := hab.filter fun r => compare ⟨[field]⟩ a r = .eq
        rwa [List.filter_eq_self.2 (by simp [compare_self, hcompare])] at hfilter
      rw [hfield.ties_eq] at hties
      exact h.pairwise_isLE.forall_sublist (hties.trans List.filter_sublist)
  · intro row
    have hswap : ∀ rows : List ρ, ties ⟨fields⟩ row (ties ⟨[field]⟩ row rows) = ties ⟨[field]⟩ row (ties ⟨fields⟩ row rows) := by
      intro rows
      simp only [ties, List.filter_filter, Bool.and_comm]
    rw [ties_cons field fields row sorted, hfield.ties_eq, hswap, h.ties_eq, ← hswap, ← ties_cons]

/-- Sorting by columns is sorting by each of them alone, from the last to the first. It puts rows in order, and is the only way to do so
that keeps the sequence of those that hold the same in every column, whatever their directions. -/
theorem sort_by_columns (order : RowOrder) (rows : List ρ) :
    order.sort rows = order.fields.foldr (fun field rows => sort ⟨[field]⟩ rows) rows ∧
      (∀ sorted, sorted = order.sort rows ↔ order.IsStablySorted rows sorted) ∧
      ∀ row : ρ, (order.sort rows).filter (fun r => ∀ field ∈ order.fields, Row.field row field.1 = Row.field r field.1) =
        rows.filter fun r => ∀ field ∈ order.fields, Row.field row field.1 = Row.field r field.1 := by
  refine ⟨?_, ?_, ?_⟩
  · obtain ⟨fields⟩ := order
    rw [eq_comm]
    refine IsStablySorted.eq_sort ?_
    induction fields with
    | nil =>
      refine ⟨?_, fun _ => rfl⟩
      refine List.pairwise_of_forall ?_
      intro a b
      rfl
    | cons field fields ih => exact ih.cons (isStablySorted_sort ⟨[field]⟩ _)
  · intro sorted
    constructor
    · rintro rfl
      exact order.isStablySorted_sort rows
    · intro h
      exact h.eq_sort
  · intro row
    simp only [← compare_eq_eq_iff]
    exact (order.isStablySorted_sort rows).ties_eq row

end Keyset.RowOrder
