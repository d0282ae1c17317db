import Mathlib.Data.List.Forall2
import Keyset.Proofs.Query.Sorts
import Keyset.Proofs.Sample

/-!
# Requests that are accepted

All that is wrong with a request, in the order in which it is looked at, is a list of faults (`Request.faults`). A list of rows with
any history of policies refuses a request with the first of its faults, and accepts one without a fault (`Listing.ofRequest_settled`).
Each step of the validation is settled by its own part of the list: numbers, names, then the number of sorts.
-/

namespace Keyset

/-! ## Policies in force -/

theorem Policy.isValid_standard : standard.IsValid := by
  decide

namespace Definition

variable {d : Definition κ}

/-- A list of rows under the standard policy. -/
def fresh (table : SortTable κ) (identity : Column) (defaultSort : SortBy κ) : Definition κ :=
  ⟨table, identity, defaultSort, .standard, Policy.isValid_standard⟩

/-- The definition after some policies were put to it, one by one; one that is refused leaves it as it was. -/
def withPolicies (d : Definition κ) (policies : List Policy) : Definition κ :=
  policies.foldl (fun d policy => (d.withPolicy policy).toOption.getD d) d

/-- A policy comes into force when it is valid. -/
theorem policy_withPolicy (d : Definition κ) (policy : Policy) :
    ((d.withPolicy policy).toOption.getD d).policy = if policy.IsValid then policy else d.policy := by
  unfold withPolicy
  split
  · rename_i fault hfault
    have hinvalid : ¬ policy.IsValid := by
      rw [← Policy.fault?_eq_none_iff, hfault]
      exact Option.some_ne_none fault
    rw [if_neg hinvalid]
    rfl
  · rename_i hnone
    rw [if_pos (Policy.fault?_eq_none_iff.1 hnone)]
    rfl

/-- A policy changes nothing else. -/
theorem withPolicy_frame (d : Definition κ) (policy : Policy) :
    ((d.withPolicy policy).toOption.getD d).table = d.table ∧ ((d.withPolicy policy).toOption.getD d).identity = d.identity ∧
      ((d.withPolicy policy).toOption.getD d).defaultSort = d.defaultSort := by
  unfold withPolicy
  split <;> exact ⟨rfl, rfl, rfl⟩

/-- The last valid policy is in force, or the one before all when none of them is valid. -/
theorem policy_withPolicies (d : Definition κ) (policies : List Policy) :
    (d.withPolicies policies).policy = (policies.filter (·.IsValid)).getLast?.getD d.policy := by
  unfold withPolicies
  induction policies generalizing d with
  | nil => rfl
  | cons policy policies ih =>
    rw [List.foldl_cons, ih, policy_withPolicy, List.filter_cons]
    by_cases h : policy.IsValid
    · simp [h, List.getLast?_cons]
    · simp [h]

/-- No policies change the sort table. -/
theorem table_withPolicies (d : Definition κ) (policies : List Policy) : (d.withPolicies policies).table = d.table := by
  unfold withPolicies
  induction policies generalizing d with
  | nil => rfl
  | cons policy policies ih => rw [List.foldl_cons, ih, (d.withPolicy_frame policy).1]

end Definition

/-! ## Numbers -/

namespace Window

/-- A word is the number that was asked for, or the standard one. -/
def IsFilled (standard : UInt32) (asked : Option Int64) (word : UInt32) : Prop :=
  (word.toNat : Int) = (asked.map Int64.toInt).getD standard.toNat

/-- A number is inside `1..=max`. -/
def InRange (max : UInt32) (n : Int64) : Prop :=
  1 ≤ n.toInt ∧ n.toInt ≤ max.toNat

/-- Whether a number is inside a range is decided by comparison. -/
instance (max : UInt32) (n : Int64) : Decidable (InRange max n) :=
  inferInstanceAs (Decidable (_ ∧ _))

/-- The fault of a number that is asked for and is not inside the range. -/
def rangeFaults (max : UInt32) (fault : Int64 → RequestError) (asked : Option Int64) : List RequestError :=
  (asked.toList.filter fun n => ¬ InRange max n).map fault

/-- There is no fault when the number is inside the range, or is not given. -/
theorem rangeFaults_eq_nil_iff {max : UInt32} {fault : Int64 → RequestError} {asked : Option Int64} :
    rangeFaults max fault asked = [] ↔ ∀ n ∈ asked, InRange max n := by
  simp [rangeFaults]

/-- A number is settled by its range; with a standard number inside the range what is filled in is inside the range. -/
theorem settled_boundedOr {standard max : UInt32} (h : 1 ≤ standard.toNat ∧ standard.toNat ≤ max.toNat)
    (fault : Int64 → RequestError) (asked : Option Int64) :
    (boundedOr standard max fault asked).Settled (rangeFaults max fault asked) fun word =>
      IsFilled standard asked word ∧ 1 ≤ word.toNat ∧ word.toNat ≤ max.toNat := by
  cases asked with
  | none => exact ⟨standard, rfl, rfl, h⟩
  | some n =>
    by_cases hn : InRange max n
    · have hfaults : rangeFaults max fault (some n) = [] := by
        simp [rangeFaults, hn]
      have hbounded : bounded? n max = some (UInt32.ofNat n.toInt.toNat) := if_pos hn
      rw [hfaults, boundedOr, hbounded]
      obtain ⟨hone, hle⟩ := hn
      have hmax := max.toNat_lt
      have hsize : UInt32.size = 4294967296 := rfl
      have hword : (UInt32.ofNat n.toInt.toNat).toNat = n.toInt.toNat := UInt32.toNat_ofNat_of_lt' (by omega)
      refine ⟨_, rfl, ?_, ?_⟩
      · simp only [IsFilled, hword, Option.map_some, Option.getD_some]
        omega
      · omega
    · have hfaults : rangeFaults max fault (some n) = [fault n] := by
        simp [rangeFaults, hn]
      have hbounded : bounded? n max = none := if_neg hn
      rw [hfaults, boundedOr, hbounded]
      rfl

/-- What is wrong with the numbers of a request. -/
def faults (policy : Policy) : Option Paging → List RequestError
  | none => []
  | some (.cursor limit _) => rangeFaults policy.maxLimit (.limitOutOfRange · policy.maxLimit) limit
  | some (.offset page pageSize) =>
    rangeFaults maxWord .pageOutOfRange page ++ rangeFaults policy.maxPageSize (.pageSizeOutOfRange · policy.maxPageSize) pageSize

/-- A window has the numbers that were asked for, and standard ones in place of the others; an empty cursor is none. -/
inductive Fills (policy : Policy) : Option Paging → Window → Prop where
  | absent : Fills policy none (.cursor policy.defaultLimit none)
  | cursor {limit : Option Int64} {word : UInt32} {token token' : Option String}
      (limit_eq : IsFilled policy.defaultLimit limit word) (token_eq : ∀ t, token' = some t ↔ token = some t ∧ t ≠ "") :
      Fills policy (some (.cursor limit token)) (.cursor word token')
  | offset {page pageSize : Option Int64} {number size : UInt32} (page_eq : IsFilled 1 page number)
      (pageSize_eq : IsFilled policy.defaultPageSize pageSize size) :
      Fills policy (some (.offset page pageSize)) (.offset number size)

end Window

/-- The greatest page that a policy has in a mode. -/
def Policy.maxOf (policy : Policy) : Paging.Mode → UInt32
  | .cursor => policy.maxLimit
  | .offset => policy.maxPageSize

/-- The window is settled by its numbers. -/
theorem Window.settled_ofPaging {policy : Policy} (h : policy.IsValid) (paging : Option Paging) :
    (ofPaging policy paging).Settled (faults policy paging) fun window =>
      Fills policy paging window ∧ 1 ≤ window.pageLimit.toNat ∧ window.pageLimit.toNat ≤ (policy.maxOf window.mode).toNat := by
  obtain ⟨hlimit, hsize⟩ := h
  simp only [UInt32.le_iff_toNat_le, UInt32.toNat_one] at hlimit hsize
  cases paging with
  | none => exact ⟨_, rfl, .absent, hlimit⟩
  | some paging =>
    cases paging with
    | cursor limit token =>
      rw [faults, ← List.append_nil (rangeFaults _ _ limit)]
      refine (settled_boundedOr hlimit _ limit).bind ?_
      rintro word ⟨hword, hrange⟩
      refine ⟨_, rfl, .cursor hword ?_, hrange⟩
      intro t
      simp [Option.filter_eq_some_iff]
    | offset page pageSize =>
      have hone : 1 ≤ (1 : UInt32).toNat ∧ (1 : UInt32).toNat ≤ maxWord.toNat := by decide
      refine (settled_boundedOr hone _ page).bind ?_
      rintro number ⟨hnumber, -⟩
      rw [← List.append_nil (rangeFaults _ _ pageSize)]
      refine (settled_boundedOr hsize _ pageSize).bind ?_
      rintro size ⟨hsize, hrange⟩
      exact ⟨_, rfl, .offset hnumber hsize, hrange⟩

/-! ## Sorts -/

namespace SortTable

/-- The sort by the exposed key that a name stands for, in the direction that was asked for. -/
def Names (table : SortTable κ) (named : NamedSort) (sort : SortBy κ) : Prop :=
  table.find? named.name = some sort.key ∧ sort.direction = named.direction

theorem find?_eq_none_iff {table : SortTable κ} {name : String} :
    table.find? name = none ↔ ∀ key ∈ table.exposed, table.name key ≠ name := by
  simp [find?]

/-- What is wrong with the names of a request. -/
def faults (table : SortTable κ) (sorts : List NamedSort) : List RequestError :=
  (sorts.filter fun sort => ∀ key ∈ table.exposed, table.name key ≠ sort.name).map fun sort => .unknownSortColumn sort.name

theorem faults_eq_nil_iff {table : SortTable κ} {sorts : List NamedSort} :
    table.faults sorts = [] ↔ ∀ sort ∈ sorts, ∃ key ∈ table.exposed, table.name key = sort.name := by
  simp [faults]

/-- A name that stands for nothing is a fault. -/
theorem faults_cons_of_none {table : SortTable κ} {sort : NamedSort} (h : table.find? sort.name = none) (sorts : List NamedSort) :
    table.faults (sort :: sorts) = .unknownSortColumn sort.name :: table.faults sorts := by
  have hunknown : decide (∀ key ∈ table.exposed, table.name key ≠ sort.name) = true := decide_eq_true (find?_eq_none_iff.1 h)
  simp only [faults, List.filter_cons, hunknown, if_true, List.map_cons]

/-- A name that stands for a key is none. -/
theorem faults_cons_of_some {table : SortTable κ} {sort : NamedSort} {key : κ} (h : table.find? sort.name = some key)
    (sorts : List NamedSort) : table.faults (sort :: sorts) = table.faults sorts := by
  have hknown : ¬ ∀ key ∈ table.exposed, table.name key ≠ sort.name := by
    rw [← find?_eq_none_iff, h]
    exact Option.some_ne_none key
  simp only [faults, List.filter_cons, hknown, decide_false, Bool.false_eq_true, if_false]

end SortTable

namespace Listing

/-- The sorts are settled by their names. -/
theorem settled_resolveSorts (table : SortTable κ) (sorts : List NamedSort) :
    (resolveSorts table sorts).Settled (table.faults sorts) (List.Forall₂ table.Names sorts) := by
  induction sorts with
  | nil => exact ⟨[], rfl, .nil⟩
  | cons sort sorts ih =>
    unfold resolveSorts
    split
    · rename_i hnone
      rw [SortTable.faults_cons_of_none hnone]
      rfl
    · rename_i key hkey
      rw [SortTable.faults_cons_of_some hkey, ← List.append_nil (table.faults sorts)]
      refine ih.bind ?_
      intro rest hrest
      exact ⟨_, rfl, .cons ⟨hkey, rfl⟩ hrest⟩

/-- What is wrong with the number of the sorts. -/
def countFaults (mode : Paging.Mode) (count : Nat) : List RequestError :=
  if mode = .cursor ∧ 1 < count then [.cursorMultiSort count] else []

/-- A listing is settled by the number of its sorts. -/
theorem settled_make (window : Window) (sorts : List (SortBy κ)) :
    (make window sorts).Settled (countFaults window.mode sorts.length) fun listing =>
      listing.window = window ∧ listing.sorts = sorts := by
  unfold make countFaults
  by_cases h : window.mode = .cursor ∧ 1 < sorts.length
  · rw [dif_neg (by simpa using h), if_pos h]
    rfl
  · rw [dif_pos (by simpa using h), if_neg h]
    exact ⟨_, rfl, rfl, rfl⟩

end Listing

/-! ## Requests -/

namespace Request

/-- The sorts that are asked for. -/
def sorts (request : Request) : List NamedSort :=
  request.sort.getD []

/-- The mode that is asked for; a request that says nothing about it is one by cursor. -/
def mode (request : Request) : Paging.Mode :=
  match request.paging with
  | none | some (.cursor ..) => .cursor
  | some (.offset ..) => .offset

/-- All that is wrong with a request: its numbers, then its names, then the number of its sorts. -/
def faults (request : Request) (table : SortTable κ) (policy : Policy) : List RequestError :=
  Window.faults policy request.paging ++ (table.faults request.sorts ++ Listing.countFaults request.mode request.sorts.length)

/-- A request asks for what the table and the policy allow. -/
structure IsAllowed (request : Request) (table : SortTable κ) (policy : Policy) : Prop where
  limit : ∀ limit token, request.paging = some (.cursor limit token) → ∀ n ∈ limit, Window.InRange policy.maxLimit n
  page : ∀ page pageSize, request.paging = some (.offset page pageSize) → ∀ n ∈ page, Window.InRange Window.maxWord n
  pageSize : ∀ page pageSize, request.paging = some (.offset page pageSize) → ∀ n ∈ pageSize, Window.InRange policy.maxPageSize n
  names : ∀ sort ∈ request.sorts, ∃ key ∈ table.exposed, table.name key = sort.name
  count : request.mode = .cursor → request.sorts.length ≤ 1

theorem faults_eq_nil_iff {request : Request} {table : SortTable κ} {policy : Policy} :
    request.faults table policy = [] ↔ request.IsAllowed table policy := by
  have hcount : Listing.countFaults request.mode request.sorts.length = [] ↔ (request.mode = .cursor → request.sorts.length ≤ 1) := by
    simp [Listing.countFaults]
  rw [faults, List.append_eq_nil_iff, List.append_eq_nil_iff, SortTable.faults_eq_nil_iff, hcount]
  obtain ⟨paging, sort⟩ := request
  constructor
  · rintro ⟨hwindow, hnames, hsingle⟩
    refine ⟨?_, ?_, ?_, hnames, hsingle⟩
    · rintro limit token rfl
      exact Window.rangeFaults_eq_nil_iff.1 hwindow
    · rintro page pageSize rfl
      exact Window.rangeFaults_eq_nil_iff.1 (List.append_eq_nil_iff.1 hwindow).1
    · rintro page pageSize rfl
      exact Window.rangeFaults_eq_nil_iff.1 (List.append_eq_nil_iff.1 hwindow).2
  · rintro ⟨hlimit, hpage, hpageSize, hnames, hsingle⟩
    refine ⟨?_, hnames, hsingle⟩
    rcases paging with _ | ⟨limit, token⟩ | ⟨page, pageSize⟩
    · rfl
    · exact Window.rangeFaults_eq_nil_iff.2 (hlimit limit token rfl)
    · exact List.append_eq_nil_iff.2
        ⟨Window.rangeFaults_eq_nil_iff.2 (hpage page pageSize rfl), Window.rangeFaults_eq_nil_iff.2 (hpageSize page pageSize rfl)⟩

end Request

/-- A window is in the mode that was asked for. -/
theorem Window.Fills.mode_eq {policy : Policy} {request : Request} {window : Window} (h : Fills policy request.paging window) :
    window.mode = request.mode := by
  obtain ⟨paging, sort⟩ := request
  cases h <;> rfl

namespace Listing

/-- A listing is what was asked for, with a page no greater than the policy allows in its mode. -/
structure Answers (listing : Listing κ) (request : Request) (table : SortTable κ) (policy : Policy) : Prop where
  fills : Window.Fills policy request.paging listing.window
  one_le_pageLimit : 1 ≤ listing.window.pageLimit.toNat
  pageLimit_le : listing.window.pageLimit.toNat ≤ (policy.maxOf request.mode).toNat
  /-- The sorts are those that were named, in their order. -/
  names : List.Forall₂ table.Names request.sorts listing.sorts

/-- A request is settled by its faults. -/
theorem settled_ofRequest (d : Definition κ) (request : Request) :
    (ofRequest d request).Settled (request.faults d.table d.policy) (·.Answers request d.table d.policy) := by
  refine (Window.settled_ofPaging d.policy_isValid request.paging).bind ?_
  rintro window ⟨hfills, hone, hmax⟩
  refine (settled_resolveSorts d.table request.sorts).bind ?_
  intro sorts hsorts
  rw [← hfills.mode_eq, hsorts.length_eq]
  refine (settled_make window sorts).imp ?_
  rintro listing ⟨rfl, rfl⟩
  exact ⟨hfills, hone, hfills.mode_eq ▸ hmax, hsorts⟩

/-- After any policies were put to a list of rows the last valid one is in force. Then a request is accepted when it asks for what the
table and this policy allow, what is accepted answers the request, and any other request is refused with the first of its faults. -/
theorem ofRequest_settled (table : SortTable κ) (identity : Column) (defaultSort : SortBy κ) (policies : List Policy)
    (request : Request) :
    let d := (Definition.fresh table identity defaultSort).withPolicies policies
    let policy := (policies.filter (·.IsValid)).getLast?.getD .standard
    ((∃ listing, ofRequest d request = .ok listing) ↔ request.IsAllowed table policy) ∧
      (∀ listing, ofRequest d request = .ok listing → listing.Answers request table policy) ∧
      ∀ fault, ofRequest d request = .error fault ↔ (request.faults table policy).head? = some fault := by
  intro d policy
  have hsettled := settled_ofRequest d request
  have htable : d.table = table := Definition.table_withPolicies _ policies
  have hpolicy : d.policy = policy := Definition.policy_withPolicies _ policies
  rw [htable, hpolicy] at hsettled
  refine ⟨?_, ?_, hsettled.eq_error_iff⟩
  · rw [hsettled.exists_ok_iff, Request.faults_eq_nil_iff]
  · intro listing hlisting
    exact hsettled.good hlisting

/-- Of three policies the second is valid. Under it ten books are not too many by cursor, and of the faults of a request by page number
the page is told, as it was asked for. -/
theorem ofRequest_settled_books :
    let d := (Definition.fresh (Sample.books true).table ⟨"isbn"⟩ ⟨true, .asc⟩).withPolicies
      [⟨0, 0, 0, 0⟩, ⟨2, 10, 2, 4⟩, ⟨9, 3, 1, 1⟩]
    (∃ listing, ofRequest d ⟨some (.cursor (some 10) (some "")), some [⟨"title", .desc⟩]⟩ = .ok listing ∧
      listing.window.pageLimit.toNat ≤ 10) ∧
    ofRequest d ⟨some (.offset (some 4294967296) (some 0)), some [⟨"shelf", .asc⟩]⟩ = .error (.pageOutOfRange 4294967296) := by
  intro d
  have hsettled := ofRequest_settled (Sample.books true).table ⟨"isbn"⟩ ⟨true, .asc⟩ [⟨0, 0, 0, 0⟩, ⟨2, 10, 2, 4⟩, ⟨9, 3, 1, 1⟩]
  constructor
  · obtain ⟨hiff, hanswers, -⟩ := hsettled ⟨some (.cursor (some 10) (some "")), some [⟨"title", .desc⟩]⟩
    obtain ⟨listing, hlisting⟩ := hiff.2 (Request.faults_eq_nil_iff.1 (by decide))
    exact ⟨listing, hlisting, (hanswers listing hlisting).pageLimit_le⟩
  · exact ((hsettled ⟨some (.offset (some 4294967296) (some 0)), some [⟨"shelf", .asc⟩]⟩).2.2 _).2 (by decide)

end Listing

end Keyset
