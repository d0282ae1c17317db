import Keyset.Json.Record
import Keyset.Proofs.Json.Numeral
import Keyset.Proofs.Json.ReadBack

/-!
# Decoders and writers

A decoder `Reads` a writer when it takes every document that the writer makes back to the value. This holds of texts and words, goes
over to values that may be missing and to lists, and to records whose members are `Written` in the order of the fields, each by a
writer that its field reads (`Decoder.record_of_written`). Fields with a value of their own may be left out.
-/

namespace Keyset.Json

namespace Decoder

/-- What a writer writes is decoded to the value that was written. -/
def Reads (decode : Decoder α) (write : α → Json) : Prop :=
  ∀ a, decode (write a).reading = .ok a

/-! ## Texts -/

/-- The text of a document is decoded as the document is. -/
theorem decodeText_render {decode : Decoder α} {json : Json} {a : α} (h : decode json.reading = .ok a) :
    decode.decodeText json.render = .ok a := by
  rw [decodeText, render, String.toList_ofList, decodeChars, Reading.ofChars_chars]
  simp only [h]
  rfl

/-! ## Scalars -/

theorem reads_bool : Reads bool .bool :=
  fun _ => rfl

theorem reads_text : Reads text .text :=
  fun _ => rfl

/-- An integer is read back by a decoder whose range it is in, if the range is that of a word. -/
theorem integer_reading {least greatest n : Int} (hleast : -9223372036854775808 ≤ least)
    (hgreatest : greatest < 18446744073709551616) (h : least ≤ n ∧ n ≤ greatest) :
    integer least greatest (number n).reading = .ok n := by
  rw [reading, Numeral.ofChars_ofInt (by omega) (by omega), integer, if_pos h]

/-- Signed 64-bit words are read back. -/
theorem reads_int64 : Reads int64 (.number ·.toInt) := by
  intro n
  have hle := n.le_toInt
  have hlt := n.toInt_lt
  rw [int64, integer_reading (by omega) (by omega) (by omega), Except.map, Int64.ofInt_toInt]

theorem reads_uint32 : Reads uint32 (.number ·.toNat) := by
  intro n
  have hlt := n.toNat_lt
  rw [uint32, integer_reading (by omega) (by omega) (by omega), Except.map, Int.toNat_natCast, UInt32.ofNat_toNat]

theorem reads_uint64 : Reads uint64 (.number ·.toNat) := by
  intro n
  have hlt := n.toNat_lt
  rw [uint64, integer_reading (by omega) (by omega) (by omega), Except.map, Int.toNat_natCast, UInt64.ofNat_toNat]

/-! ## Values that may be missing, and lists -/

/-- Values that may be missing are read back, if null is written for none of those that are there. -/
theorem Reads.optional {decode : Decoder α} {write : α → Json} (h : Reads decode write)
    (hnull : ∀ a, (write a).reading ≠ .null) : Reads (optional decode) (Json.optional write) := by
  intro value
  cases value with
  | none => rfl
  | some a =>
    rw [Json.optional, Decoder.optional, h a]
    · rfl
    · exact hnull a

/-- Lists are read back item by item. -/
theorem Reads.list {decode : Decoder α} {write : α → Json} (h : Reads decode write) :
    Reads (list decode) fun values => .array (values.map write) := by
  intro values
  have hitems : items decode (values.map fun a => (write a).reading) = .ok values := by
    induction values with
    | nil => rfl
    | cons a values ih =>
      rw [List.map_cons, items, h a, ih]
      rfl
  rw [reading, itemReadings_eq_map, List.map_map, Decoder.list, Function.comp_def, hitems]
  rfl

end Decoder

/-! ## Records -/

/-- Members that are written for the fields of a record, in their order, and take one record to another. A field that is not required
may be left out. -/
inductive Written : List (Field σ) → List (String × Json) → σ → σ → Prop where
  | nil (record : σ) : Written [] [] record record
  | cons {field : Field σ} {fields : List (Field σ)} {value : Json} {members : List (String × Json)} {record result : σ}
      {change : σ → σ} (set_eq : field.set value.reading = .ok change) (rest : Written fields members (change record) result) :
      Written (field :: fields) ((field.name, value) :: members) record result
  | skip {field : Field σ} {fields : List (Field σ)} {members : List (String × Json)} {record result : σ}
      (presence_ne : field.presence ≠ .required) (rest : Written fields members record result) :
      Written (field :: fields) members record result

/-- A field takes what its decoder reads back. -/
theorem Field.set_of {decode : Decoder α} {write : α → Json} (h : decode.Reads write) (name : String) (presence : Presence)
    (put : α → σ → σ) (a : α) : (Field.of name presence decode put).set (write a).reading = .ok (put a) := by
  rw [Field.of]
  simp only [h a]
  rfl

namespace Decoder

/-- Among fields of different names a field is found by its name. -/
theorem find?_name {declared : List (Field σ)} (hnames : (declared.map Field.name).Nodup) {field : Field σ}
    (h : field ∈ declared) : declared.find? (·.name = field.name) = some field := by
  induction declared with
  | nil => cases h
  | cons first declared ih =>
    rw [List.map_cons, List.nodup_cons] at hnames
    rcases List.mem_cons.1 h with rfl | hmem
    · simp
    · have hne : first.name ≠ field.name := by
        intro heq
        exact hnames.1 (heq ▸ List.mem_map_of_mem hmem)
      rw [List.find?_cons_of_neg (by simp [hne]), ih hnames.2 hmem]

/-- Written members are read one after the other, those of all required fields among them. -/
theorem members_of_written {declared fields : List (Field σ)} (extras : Extras) {written : List (String × Json)}
    {record result : σ} (h : Written fields written record result) (hnames : (declared.map Field.name).Nodup)
    (hsublist : fields.Sublist declared) {seen : List String} (hseen : ∀ field ∈ fields, field.name ∉ seen) :
    ∃ read, members declared extras seen (memberReadings written) record = .ok (read, result) ∧ seen ⊆ read ∧
      ∀ field ∈ fields, field.presence = .required → field.name ∈ read := by
  induction h generalizing seen with
  | nil record =>
    refine ⟨seen, rfl, List.Subset.refl seen, ?_⟩
    intro field hfield
    cases hfield
  | @cons field fields value written record result change hset _ ih =>
    have hfind := find?_name hnames (hsublist.subset List.mem_cons_self)
    have hother : ∀ other ∈ fields, other.name ∉ field.name :: seen := by
      have hdistinct := (hsublist.map Field.name).nodup hnames
      rw [List.map_cons, List.nodup_cons] at hdistinct
      intro other hmem hname
      rcases List.mem_cons.1 hname with heq | hname
      · exact hdistinct.1 (heq ▸ List.mem_map_of_mem hmem)
      · exact hseen other (List.mem_cons_of_mem field hmem) hname
    obtain ⟨read, hread, hsubset, hrequired⟩ := ih (List.sublist_of_cons_sublist hsublist) hother
    refine ⟨read, ?_, ?_, ?_⟩
    · rw [memberReadings, members, hfind]
      simp only [if_neg (hseen field List.mem_cons_self), hset]
      exact hread
    · intro name hname
      exact hsubset (List.mem_cons_of_mem field.name hname)
    · rw [List.forall_mem_cons]
      refine ⟨?_, hrequired⟩
      intro _
      exact hsubset List.mem_cons_self
  | @skip field fields written record result hpresence _ ih =>
    have hother : ∀ other ∈ fields, other.name ∉ seen := by
      intro other hmem
      exact hseen other (List.mem_cons_of_mem field hmem)
    obtain ⟨read, hread, hsubset, hrequired⟩ := ih (List.sublist_of_cons_sublist hsublist) hother
    refine ⟨read, hread, hsubset, ?_⟩
    rw [List.forall_mem_cons]
    refine ⟨?_, hrequired⟩
    intro hrequired
    exact absurd hrequired hpresence

/-- Written members are read as the record that they lead to. -/
theorem object_of_written {declared : List (Field σ)} {extras : Extras} {written : List (String × Json)} {blank result : σ}
    (h : Written declared written blank result) (hnames : (declared.map Field.name).Nodup) :
    object declared extras blank (memberReadings written) .closed = .ok result := by
  have hseen : ∀ field ∈ declared, field.name ∉ ([] : List String) := by
    intro field _ hname
    cases hname
  obtain ⟨read, hread, -, hrequired⟩ := members_of_written extras h hnames (List.Sublist.refl declared) hseen
  have hmissing : missing? declared read = none := by
    rw [missing?, Option.map_eq_none_iff, List.find?_eq_none]
    intro field hfield hlost
    obtain ⟨hpresence, hname⟩ := of_decide_eq_true hlost
    exact hname (hrequired field hfield hpresence)
  rw [object, hread]
  simp only [bind, Except.bind, hmissing]
  rfl

/-- The document of written members is read as the record that they lead to. -/
theorem record_of_written {declared : List (Field σ)} {extras : Extras} {written : List (String × Json)} {blank result : σ}
    (h : Written declared written blank result) (hnames : (declared.map Field.name).Nodup) :
    record declared extras blank (Json.object written).reading = .ok result := by
  rw [reading, record]
  exact object_of_written h hnames

end Decoder

end Keyset.Json
