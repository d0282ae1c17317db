import Keyset.Proofs.Json.Decoding
import Keyset.Proofs.Query.Sorts
import Keyset.Proofs.Sample
import Keyset.Release

/-!
# Who is to mend an error

With an exposed standard sort whatever goes wrong is the client's to mend; with a hidden one every request that leaves the sort open
is an error of the definition, whatever else is in it (`Query.ofJson_never_internal`).
-/

namespace Keyset

/-- The one sort of the cursor mode is one that the query goes by. -/
theorem Definition.headD_mem_sortsOr (d : Definition κ) (sorts : List (SortBy κ)) : sorts.headD d.defaultSort ∈ d.sortsOr sorts := by
  cases sorts with
  | nil => exact List.mem_singleton.2 rfl
  | cons sort sorts => exact List.mem_cons_self

namespace Query

/-- When the standard sort is exposed the sorts of a validated request all are, those that the client named and the standard one. -/
theorem exposed_sortsOr {d : Definition κ} (h : d.defaultSort.key ∈ d.table.exposed) {request : Request} {listing : Listing κ}
    (hlisting : Listing.ofRequest d request = .ok listing) : ∀ sort ∈ d.sortsOr listing.sorts, sort.key ∈ d.table.exposed := by
  rw [Definition.sortsOr]
  split
  · rw [List.forall_mem_singleton]
    exact h
  · exact Listing.exposed_of_ofRequest hlisting

variable [DecidableEq κ] {d : Definition κ}

/-- With exposed sorts nothing fails but a cursor. -/
theorem exists_token_of_ofListing {listing : Listing κ} (h : ∀ sort ∈ d.sortsOr listing.sorts, sort.key ∈ d.table.exposed)
    {e : QueryError} (he : ofListing d listing = .error e) : ∃ fault, e = .token fault := by
  rw [ofListing] at he
  split at he
  · rcases Except.bind_eq_error he with hcolumn | ⟨column, -, he⟩
    · rw [Definition.resolve_of_exposed (h _ (d.headD_mem_sortsOr listing.sorts))] at hcolumn
      cases hcolumn
    · rcases Except.bind_eq_error he with hseek | ⟨seek, -, he⟩
      · obtain ⟨fault, -, rfl⟩ := Except.exists_of_mapError_eq_error hseek
        exact ⟨fault, rfl⟩
      · cases he
  · rcases Except.bind_eq_error he with hfields | ⟨fields, -, he⟩
    · have hsorts : ∀ sort ∈ if listing.sorts.isEmpty then [d.defaultSort] else listing.sorts, sort.key ∈ d.table.exposed := h
      rw [resolveFields_eq hsorts] at hfields
      cases hfields
    · cases he

/-- With a hidden standard sort there is no query without a sort, be the cursor good or bad: the sort is looked up first. -/
theorem ofListing_of_hidden (h : d.defaultSort.key ∉ d.table.exposed) {listing : Listing κ} (hsorts : listing.sorts = []) :
    ofListing d listing = .error (.definition (.unknownSortColumn (d.table.name d.defaultSort.key))) := by
  have hresolve := Definition.resolve_of_not_exposed h
  rw [ofListing, hsorts]
  split
  · simp only [List.headD_nil, hresolve]
    rfl
  · simp only [List.isEmpty_nil, if_true, resolveFields, hresolve]
    rfl

/-- With an exposed standard sort every text has a query, or is rejected as a request or for its cursor. With a hidden one every
request that is valid and names no sort is answered by an error that names the standard sort. -/
theorem ofJson_never_internal (d : Definition κ) :
    (d.defaultSort.key ∈ d.table.exposed → ∀ text,
      (∃ q, ofJson d text = .ok q) ∨ ∃ e, ofJson d text = .error e ∧ e.errorClass = .rejected ∧
        ((∃ fault, e = .request fault) ∨ ∃ fault, e = .token fault)) ∧
    (d.defaultSort.key ∉ d.table.exposed → ∀ listing : Listing κ, listing.sorts = [] →
      let hidden := QueryError.definition (.unknownSortColumn (d.table.name d.defaultSort.key))
      ofListing d listing = .error hidden ∧
        (∀ request, Listing.ofRequest d request = .ok listing → ofRequest d request = .error hidden) ∧
        ∀ text, Listing.ofJson d text = .ok listing → ofJson d text = .error hidden) := by
  constructor
  · intro h text
    cases hq : ofJson d text with
    | ok q => exact .inl ⟨q, rfl⟩
    | error e =>
      refine .inr ⟨e, rfl, ?_⟩
      rcases Except.bind_eq_error hq with hlisting | ⟨listing, hlisting, he⟩
      · obtain ⟨fault, -, rfl⟩ := Except.exists_of_mapError_eq_error hlisting
        exact ⟨rfl, .inl ⟨fault, rfl⟩⟩
      · obtain ⟨request, -, hrequest⟩ := Except.exists_of_bind_eq_ok (Except.eq_ok_of_mapError hlisting)
        obtain ⟨fault, rfl⟩ := exists_token_of_ofListing (exposed_sortsOr h hrequest) he
        exact ⟨rfl, .inr ⟨fault, rfl⟩⟩
  · intro h listing hsorts hidden
    have hquery : ofListing d listing = .error hidden := ofListing_of_hidden h hsorts
    refine ⟨hquery, ?_, ?_⟩
    · intro request hrequest
      rw [ofRequest, hrequest]
      exact hquery
    · intro text htext
      rw [ofJson, htext]
      exact hquery

end Query

/-- A request whose cursor cannot be read: with the title as the standard sort it is rejected, with the shelf it is an error of the
definition. -/
theorem Query.ofJson_never_internal_books :
    let text := "\x7b\"pagination\":\x7b\"mode\":\"cursor\",\"cursor\":\"!\"\x7d\x7d"
    ((∃ q, ofJson (Sample.books true) text = .ok q) ∨ ∃ e, ofJson (Sample.books true) text = .error e ∧
      e.errorClass = .rejected ∧ ((∃ fault, e = .request fault) ∨ ∃ fault, e = .token fault)) ∧
    ofJson (Sample.books false) text = .error (.definition (.unknownSortColumn "shelf")) := by
  intro text
  have htext : text = (Json.object [("pagination", .object [("mode", .text "cursor"), ("cursor", .text "!")])]).render := by
    decide
  have hrequest : Request.ofJson text = .ok ⟨some (.cursor none (some "!")), none⟩ := by
    rw [htext, Request.ofJson, Json.Decoder.decodeText_render (a := ⟨some (.cursor none (some "!")), none⟩) rfl]
    rfl
  have hlisting : Listing.ofJson (Sample.books false) text = .ok ⟨.cursor 30 (some "!"), [], fun _ => Nat.zero_le 1⟩ := by
    rw [Listing.ofJson, hrequest]
    rfl
  constructor
  · exact (ofJson_never_internal (Sample.books true)).1 (List.mem_singleton.2 rfl) text
  · have hhidden : (Sample.books false).defaultSort.key ∉ (Sample.books false).table.exposed := by decide
    exact ((ofJson_never_internal (Sample.books false)).2 hhidden _ rfl).2.2 text hlisting

end Keyset
