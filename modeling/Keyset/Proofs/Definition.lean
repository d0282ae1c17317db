import Mathlib.Data.List.Nodup
import Keyset.Proofs.Query.Sorts
import Keyset.Proofs.Sample

/-!
# Definitions without a fault

The check of a definition looks for a name that stands twice, and a client's name is looked up from the front; the two agree. In the
sort table of a definition without a fault every exposed key is found under its own name and nothing else is found, and where names
clash the first name that is repeated is told: `Definition.faultless_names`.
-/

namespace Keyset

namespace SortTable

/-- No name is repeated when the names differ from each other and from those seen before. -/
theorem firstRepeated?_eq_none_iff {seen names : List String} :
    firstRepeated? seen names = none ↔ names.Nodup ∧ ∀ name ∈ names, name ∉ seen := by
  induction names generalizing seen with
  | nil => simp [firstRepeated?]
  | cons first names ih =>
    rw [firstRepeated?]
    by_cases hseen : first ∈ seen
    · simp [hseen]
    · rw [if_neg hseen, ih, List.nodup_cons, List.forall_mem_cons]
      constructor
      · rintro ⟨hnodup, hfresh⟩
        refine ⟨⟨?_, hnodup⟩, hseen, ?_⟩
        · intro hfirst
          exact hfresh first hfirst List.mem_cons_self
        · intro name hname hname_seen
          exact hfresh name hname (List.mem_cons_of_mem first hname_seen)
      · rintro ⟨⟨hfirst, hnodup⟩, -, hfresh⟩
        refine ⟨hnodup, ?_⟩
        intro name hname hname_seen
        rcases List.mem_cons.1 hname_seen with rfl | hname_seen
        · exact hfirst hname
        · exact hfresh name hname hname_seen

/-- The name that is told stands behind names that are not repeated, and is one of these or of those seen before. -/
theorem exists_of_firstRepeated? {seen names : List String} {name : String} (h : firstRepeated? seen names = some name) :
    ∃ before after, names = before ++ name :: after ∧ firstRepeated? seen before = none ∧ (name ∈ seen ∨ name ∈ before) := by
  induction names generalizing seen with
  | nil => cases h
  | cons first names ih =>
    rw [firstRepeated?] at h
    by_cases hseen : first ∈ seen
    · rw [if_pos hseen] at h
      cases h
      exact ⟨[], names, rfl, rfl, .inl hseen⟩
    · rw [if_neg hseen] at h
      obtain ⟨before, after, rfl, hbefore, hname⟩ := ih h
      refine ⟨first :: before, after, rfl, ?_, ?_⟩
      · rw [firstRepeated?, if_neg hseen, hbefore]
      · rw [List.mem_cons] at hname ⊢
        rcases hname with (hfirst | hname) | hname
        · exact .inr (.inl hfirst)
        · exact .inl hname
        · exact .inr (.inr hname)

/-- What is found for a name is exposed and has the name. -/
theorem mem_of_find? {table : SortTable κ} {name : String} {key : κ} (h : table.find? name = some key) :
    key ∈ table.exposed ∧ table.name key = name := by
  have hname := List.find?_some h
  exact ⟨List.mem_of_find?_eq_some h, of_decide_eq_true hname⟩

/-- With names that differ a name is found for the exposed key that has it, and for no other. -/
theorem find?_eq_some_iff {table : SortTable κ} (h : (table.exposed.map table.name).Nodup) {name : String} {key : κ} :
    table.find? name = some key ↔ key ∈ table.exposed ∧ table.name key = name := by
  constructor
  · exact mem_of_find?
  · rintro ⟨hkey, rfl⟩
    cases hfind : table.find? (table.name key) with
    | none => exact absurd (decide_eq_true rfl) (List.find?_eq_none.1 hfind key hkey)
    | some found =>
      obtain ⟨hfound, hname⟩ := mem_of_find? hfind
      rw [List.inj_on_of_nodup_map h hfound hkey hname]

end SortTable

namespace Definition

variable [DecidableEq κ]

/-- With an exposed standard sort the fault is the name that is repeated, if there is one. -/
theorem fault?_of_exposed {d : Definition κ} (h : d.defaultSort.key ∈ d.table.exposed) :
    d.fault? = (SortTable.firstRepeated? [] (d.table.exposed.map d.table.name)).map .duplicateSortColumn :=
  if_pos (decide_eq_true h)

/-- A definition has no fault when its standard sort is exposed and no two exposed places have one name. -/
theorem fault?_eq_none_iff {d : Definition κ} :
    d.fault? = none ↔ d.defaultSort.key ∈ d.table.exposed ∧ (d.table.exposed.map d.table.name).Nodup := by
  by_cases hexposed : d.defaultSort.key ∈ d.table.exposed
  · rw [fault?_of_exposed hexposed, Option.map_eq_none_iff, SortTable.firstRepeated?_eq_none_iff]
    simp [hexposed]
  · have hfault : d.fault? = some (.unknownSortColumn (d.table.name d.defaultSort.key)) := if_neg (by simpa [SortTable.isExposed])
    simp [hfault, hexposed]

/-- Without a fault the standard sort is exposed and the exposed names differ; then each exposed key is found under its name and has its
column, and a name is found for the exposed key that has it and no other. With an exposed standard sort the fault is the name of the
first exposed place whose name stands before it. -/
theorem faultless_names (d : Definition κ) :
    (d.fault? = none ↔ d.defaultSort.key ∈ d.table.exposed ∧ (d.table.exposed.map d.table.name).Nodup) ∧
    (d.fault? = none →
      (∀ key ∈ d.table.exposed, d.table.find? (d.table.name key) = some key ∧ d.resolve key = .ok (d.table.column key)) ∧
      ∀ name key, d.table.find? name = some key ↔ key ∈ d.table.exposed ∧ d.table.name key = name) ∧
    (d.defaultSort.key ∈ d.table.exposed → ¬ (d.table.exposed.map d.table.name).Nodup →
      ∃ before key after, d.table.exposed = before ++ key :: after ∧ (before.map d.table.name).Nodup ∧
        (∃ earlier ∈ before, d.table.name earlier = d.table.name key) ∧
        d.fault? = some (.duplicateSortColumn (d.table.name key))) := by
  refine ⟨fault?_eq_none_iff, ?_, ?_⟩
  · intro hfault
    have hnames := (fault?_eq_none_iff.1 hfault).2
    refine ⟨?_, fun _ _ => SortTable.find?_eq_some_iff hnames⟩
    intro key hkey
    exact ⟨(SortTable.find?_eq_some_iff hnames).2 ⟨hkey, rfl⟩, resolve_of_exposed hkey⟩
  · intro hexposed hnames
    cases hrepeated : SortTable.firstRepeated? [] (d.table.exposed.map d.table.name) with
    | none => exact absurd (SortTable.firstRepeated?_eq_none_iff.1 hrepeated).1 hnames
    | some name =>
      obtain ⟨before, after, hsplit, hbefore, hname⟩ := SortTable.exists_of_firstRepeated? hrepeated
      -- The names before the repeated one are those of the keys before its place.
      obtain ⟨keys, rest, hkeys, rfl, hrest⟩ := List.map_eq_append_iff.1 hsplit
      obtain ⟨key, others, rfl, rfl, -⟩ := List.map_eq_cons_iff.1 hrest
      refine ⟨keys, key, others, hkeys, (SortTable.firstRepeated?_eq_none_iff.1 hbefore).1, ?_, ?_⟩
      · rcases hname with hname | hname
        · exact absurd hname List.not_mem_nil
        · exact List.mem_map.1 hname
      · rw [fault?_of_exposed hexposed, hrepeated, Option.map_some]

/-- Works by title and author have no fault, and the editor, who is hidden, is not found under the name of the author. With the editor and
once more the title exposed the name that is told is the author's. -/
theorem faultless_names_works :
    ((Sample.works [0, 1]).fault? = none ∧ (Sample.works [0, 1]).table.find? "author" ≠ some 2) ∧
    ∃ before key after, [0, 1, 2, 0] = before ++ key :: after ∧ (before.map (Sample.works [0, 1, 2, 0]).table.name).Nodup ∧
      (∃ earlier ∈ before, (Sample.works [0, 1, 2, 0]).table.name earlier = (Sample.works [0, 1, 2, 0]).table.name key) ∧
      (Sample.works [0, 1, 2, 0]).fault? = some (.duplicateSortColumn ((Sample.works [0, 1, 2, 0]).table.name key)) := by
  constructor
  · have hfault : (Sample.works [0, 1]).fault? = none := (faultless_names (Sample.works [0, 1])).1.2 (by decide)
    refine ⟨hfault, ?_⟩
    rw [ne_eq, ((faultless_names (Sample.works [0, 1])).2.1 hfault).2 "author" 2]
    decide
  · exact (faultless_names (Sample.works [0, 1, 2, 0])).2.2 (by decide) (by decide)

end Definition

end Keyset
