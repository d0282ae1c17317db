import Keyset.Proofs.Attempt
import Keyset.Query

/-!
# The sorts of a query

Exposed keys have columns and the others do not, so a query comes of sorts that are all exposed (`Query.resolveFields_eq`). The
sorts that a client names are (`Listing.exposed_of_ofRequest`).
-/

namespace Keyset

namespace Definition

/-- The sorts that a query goes by when it is asked for some: those, or the standard one when there are none. -/
def sortsOr (d : Definition κ) (sorts : List (SortBy κ)) : List (SortBy κ) :=
  if sorts.isEmpty then [d.defaultSort] else sorts

variable [DecidableEq κ] {d : Definition κ}

theorem resolve_of_exposed {key : κ} (h : key ∈ d.table.exposed) : d.resolve key = .ok (d.table.column key) :=
  if_pos (decide_eq_true h)

theorem resolve_of_not_exposed {key : κ} (h : key ∉ d.table.exposed) :
    d.resolve key = .error (.unknownSortColumn (d.table.name key)) := by
  refine if_neg ?_
  intro hdecide
  exact h (of_decide_eq_true hdecide)

end Definition

/-- The columns of exposed sorts, in their order. -/
theorem Query.resolveFields_eq [DecidableEq κ] {d : Definition κ} {sorts : List (SortBy κ)}
    (h : ∀ sort ∈ sorts, sort.key ∈ d.table.exposed) :
    resolveFields d sorts = .ok (sorts.map fun sort => (d.table.column sort.key, sort.direction)) := by
  induction sorts with
  | nil => rfl
  | cons sort sorts ih =>
    obtain ⟨hsort, hsorts⟩ := List.forall_mem_cons.1 h
    rw [resolveFields, Definition.resolve_of_exposed hsort, ih hsorts]
    rfl

namespace Listing

/-- Names are resolved to exposed keys only. -/
theorem exposed_of_resolveSorts {table : SortTable κ} {named : List NamedSort} {sorts : List (SortBy κ)}
    (h : resolveSorts table named = .ok sorts) : ∀ sort ∈ sorts, sort.key ∈ table.exposed := by
  induction named generalizing sorts with
  | nil =>
    cases h
    intro sort hsort
    cases hsort
  | cons first named ih =>
    rw [resolveSorts] at h
    split at h
    · cases h
    · rename_i key hkey
      obtain ⟨rest, hrest, hcons⟩ := Except.exists_of_bind_eq_ok h
      cases hcons
      rw [List.forall_mem_cons]
      exact ⟨List.mem_of_find?_eq_some hkey, ih hrest⟩

/-- The sorts of a validated request are exposed. -/
theorem exposed_of_ofRequest {d : Definition κ} {request : Request} {listing : Listing κ}
    (h : ofRequest d request = .ok listing) : ∀ sort ∈ listing.sorts, sort.key ∈ d.table.exposed := by
  rw [ofRequest] at h
  obtain ⟨window, -, h⟩ := Except.exists_of_bind_eq_ok h
  obtain ⟨sorts, hsorts, h⟩ := Except.exists_of_bind_eq_ok h
  rw [make] at h
  split at h
  · cases h
    exact exposed_of_resolveSorts hsorts
  · cases h

end Listing

end Keyset
