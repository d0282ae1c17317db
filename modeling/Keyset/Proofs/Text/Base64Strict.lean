import Keyset.Proofs.Attempt
import Keyset.Proofs.Text.Base64

/-!
# Nothing but base64 is read

`decode_eq_ok_iff`: bytes are read as a list of bytes only when they are the text of that list, so no list has two texts. What is read
of the beginning of a text, if anything is, is therefore the beginning of what the text was made of (`prefix_of_encode_prefix`).
-/

namespace Keyset.Base64

/-! ## Symbols -/

/-- A byte that is read as a number is the symbol of that number. -/
theorem eq_symbolByte_of_sextet? {b : UInt8} {n : Nat} (h : sextet? b = some n) : b = symbolByte n ∧ n < 64 := by
  have hall : ∀ k < 256, ∀ n ∈ (sextet? (UInt8.ofNat k)).toList, UInt8.ofNat k = symbolByte n ∧ n < 64 := by
    decide +kernel
  have hb := hall b.toNat b.toNat_lt
  rw [UInt8.ofNat_toNat, h] at hb
  exact hb n (List.mem_singleton_self n)

theorem eq_symbolByte_of_sextetAt {offset : Nat} {b : UInt8} {n : Nat} (h : sextetAt offset b = .ok n) :
    b = symbolByte n ∧ n < 64 := by
  unfold sextetAt at h
  split at h
  · rename_i m hm
    cases h
    exact eq_symbolByte_of_sextet? hm
  · cases h

/-- Bytes that are read as numbers are the symbols of those numbers. -/
theorem eq_map_of_sextets {offset : Nat} {bs : List UInt8} {ns : List Nat} (h : sextets offset bs = .ok ns) :
    bs = ns.map symbolByte ∧ ∀ n ∈ ns, n < 64 := by
  induction bs generalizing offset ns with
  | nil =>
    cases h
    simp
  | cons b bs ih =>
    obtain ⟨n, hn, h⟩ := Except.exists_of_bind_eq_ok h
    obtain ⟨rest, hrest, h⟩ := Except.exists_of_bind_eq_ok h
    cases h
    obtain ⟨hb, hlt⟩ := eq_symbolByte_of_sextetAt hn
    obtain ⟨hbs, hlts⟩ := ih hrest
    rw [hb, hbs]
    exact ⟨rfl, List.forall_mem_cons.2 ⟨hlt, hlts⟩⟩

/-! ## Groups -/

/-- The bytes of a group are written by the symbols of the group. -/
theorem sextetsOf_bytesOfGroup {a b c d : Nat} (ha : a < 64) (hb : b < 64) (hc : c < 64) (hd : d < 64) (bs : List UInt8) :
    sextetsOf (bytesOfGroup a b c d ++ bs) = a :: b :: c :: d :: sextetsOf bs := by
  simp only [bytesOfGroup, List.cons_append, List.nil_append, sextetsOf]
  rw [Utf8.toNat_byte (by omega), Utf8.toNat_byte (by omega), Utf8.toNat_byte (by omega)]
  simp only [List.cons.injEq, and_true]
  omega

/-- A last group that is read is written by its symbols. -/
theorem eq_sextetsOf_of_bytesOfLast {length offset : Nat} {last : UInt8} {ns : List Nat} {bs : List UInt8}
    (hlt : ∀ n ∈ ns, n < 64) (h : bytesOfLast length offset last ns = .ok bs) : ns = sextetsOf bs := by
  unfold bytesOfLast at h
  split at h
  · rename_i a b
    split at h
    · cases h
      simp only [List.forall_mem_cons] at hlt
      rw [sextetsOf, Utf8.toNat_byte (by omega)]
      simp only [List.cons.injEq, and_true]
      omega
    · cases h
  · rename_i a b c
    split at h
    · cases h
      simp only [List.forall_mem_cons] at hlt
      rw [sextetsOf, Utf8.toNat_byte (by omega), Utf8.toNat_byte (by omega)]
      simp only [List.cons.injEq, and_true]
      omega
    · cases h
  · rename_i a b c d
    cases h
    simp only [List.forall_mem_cons] at hlt
    rw [← List.append_nil (bytesOfGroup a b c d), sextetsOf_bytesOfGroup (by omega) (by omega) (by omega) (by omega)]
    rfl
  · cases h

/-- The last bytes are the symbols of what they are read as. -/
theorem eq_map_of_decodeLast {length offset : Nat} {bs out : List UInt8} (h : decodeLast length offset bs = .ok out) :
    bs = (sextetsOf out).map symbolByte := by
  obtain ⟨ns, hns, h⟩ := Except.exists_of_bind_eq_ok h
  obtain ⟨hsymbols, hlt⟩ := eq_map_of_sextets hns
  by_cases hpadding : bs.dropWhile (· ≠ pad) ≠ []
  · -- Whatever stands before and behind the first padding byte, it is a fault.
    split at h
    · cases h
    · split at h <;> cases h
  · have hbs : bs.takeWhile (· ≠ pad) = bs := by
      have happend := List.takeWhile_append_dropWhile (p := (· ≠ pad)) (l := bs)
      rw [Decidable.not_not.1 hpadding, List.append_nil] at happend
      exact happend
    rw [if_neg fun hc => hpadding hc.1] at h
    split at h
    · cases h
    · rw [← hbs, hsymbols, eq_sextetsOf_of_bytesOfLast hlt h]

/-- Bytes are the symbols of what they are read as. -/
theorem eq_map_of_decodeFrom {length offset : Nat} {bs out : List UInt8} (h : decodeFrom length offset bs = .ok out) :
    bs = (sextetsOf out).map symbolByte := by
  induction offset, bs using decodeFrom.induct generalizing out with
  | case1 offset a b c d e rest ih =>
    rw [decodeFrom] at h
    obtain ⟨na, ha, h⟩ := Except.exists_of_bind_eq_ok h
    obtain ⟨nb, hb, h⟩ := Except.exists_of_bind_eq_ok h
    obtain ⟨nc, hc, h⟩ := Except.exists_of_bind_eq_ok h
    obtain ⟨nd, hd, h⟩ := Except.exists_of_bind_eq_ok h
    obtain ⟨bytes, hbytes, h⟩ := Except.exists_of_bind_eq_ok h
    cases h
    obtain ⟨ha, hna⟩ := eq_symbolByte_of_sextetAt ha
    obtain ⟨hb, hnb⟩ := eq_symbolByte_of_sextetAt hb
    obtain ⟨hc, hnc⟩ := eq_symbolByte_of_sextetAt hc
    obtain ⟨hd, hnd⟩ := eq_symbolByte_of_sextetAt hd
    rw [sextetsOf_bytesOfGroup hna hnb hnc hnd, ha, hb, hc, hd, ih hbytes]
    rfl
  | case2 offset bs hshort =>
    rw [decodeFrom] at h
    · exact eq_map_of_decodeLast h
    · exact hshort

/-! ## Texts -/

/-- Bytes are read as a list of bytes when they are the text of that list. -/
theorem decode_eq_ok_iff {bs out : List UInt8} : decode bs = .ok out ↔ bs = Utf8.encode (encode out) := by
  constructor
  · intro h
    rw [encode_utf8]
    unfold decode at h
    simp only at h
    split at h
    · cases h
    · split at h
      · cases h
        assumption
      · exact eq_map_of_decodeFrom h
  · rintro rfl
    exact decode_encode out

/-! ## Beginnings -/

/-- The first two symbols tell the first byte. -/
theorem exists_sextetsOf_cons (a : UInt8) (bs : List UInt8) :
    ∃ x < 16, ∃ ns, sextetsOf (a :: bs) = a.toNat / 4 :: (a.toNat % 4 * 16 + x) :: ns := by
  rcases bs with _ | ⟨b, _ | ⟨c, rest⟩⟩
  · exact ⟨0, by decide, _, rfl⟩
  · have hb := b.toNat_lt
    exact ⟨b.toNat / 16, by omega, _, rfl⟩
  · have hb := b.toNat_lt
    exact ⟨b.toNat / 16, by omega, _, rfl⟩

/-- The first three symbols tell the first two bytes. -/
theorem exists_sextetsOf_cons_cons (a b : UInt8) (bs : List UInt8) :
    ∃ x < 4, ∃ ns, sextetsOf (a :: b :: bs) =
      a.toNat / 4 :: (a.toNat % 4 * 16 + b.toNat / 16) :: (b.toNat % 16 * 4 + x) :: ns := by
  cases bs with
  | nil => exact ⟨0, by decide, _, rfl⟩
  | cons c rest =>
    have hc := c.toNat_lt
    exact ⟨c.toNat / 64, by omega, _, rfl⟩

/-- Bytes whose symbols begin those of other bytes begin these. -/
theorem prefix_of_sextetsOf_prefix {as bs : List UInt8} (h : sextetsOf as <+: sextetsOf bs) : as <+: bs := by
  induction as using sextetsOf.induct generalizing bs with
  | case1 => exact List.nil_prefix
  | case2 a =>
    cases bs with
    | nil => simp [sextetsOf] at h
    | cons b bs =>
      obtain ⟨x, hx, ns, hns⟩ := exists_sextetsOf_cons b bs
      rw [hns] at h
      simp only [sextetsOf, List.cons_prefix_cons] at h
      have hab : a = b := UInt8.toNat_inj.1 (by omega)
      rw [hab]
      exact List.prefix_append [b] bs
  | case3 a b =>
    rcases bs with _ | ⟨c, _ | ⟨d, bs⟩⟩
    · simp [sextetsOf] at h
    · simp [sextetsOf] at h
    · obtain ⟨x, hx, ns, hns⟩ := exists_sextetsOf_cons_cons c d bs
      rw [hns] at h
      simp only [sextetsOf, List.cons_prefix_cons] at h
      have hb := b.toNat_lt
      have hd := d.toNat_lt
      have hac : a = c := UInt8.toNat_inj.1 (by omega)
      have hbd : b = d := UInt8.toNat_inj.1 (by omega)
      rw [hac, hbd]
      exact List.prefix_append [c, d] bs
  | case4 a b c rest ih =>
    rcases bs with _ | ⟨d, _ | ⟨e, _ | ⟨f, bs⟩⟩⟩
    · simp [sextetsOf] at h
    · simp [sextetsOf] at h
    · simp [sextetsOf] at h
    · simp only [sextetsOf, List.cons_prefix_cons] at h
      have hb := b.toNat_lt
      have hc := c.toNat_lt
      have he := e.toNat_lt
      have hf := f.toNat_lt
      have had : a = d := UInt8.toNat_inj.1 (by omega)
      have hbe : b = e := UInt8.toNat_inj.1 (by omega)
      have hcf : c = f := UInt8.toNat_inj.1 (by omega)
      rw [had, hbe, hcf]
      simp only [List.cons_prefix_cons, true_and]
      exact ih h.2.2.2.2

/-- The number of a symbol, given as a character; of any other character zero. -/
def sextetOf (c : Char) : Nat :=
  (sextet? (UInt8.ofNat c.toNat)).getD 0

/-- The numbers of the characters of a text are those of its symbols. -/
theorem map_sextetOf_encode (bs : List UInt8) : (encode bs).map sextetOf = sextetsOf bs := by
  have hsymbol : ∀ n ∈ sextetsOf bs, (sextetOf ∘ symbol) n = id n := by
    intro n hn
    have hread : sextet? (UInt8.ofNat (symbol n).toNat) = some n := (symbol_spec (lt_of_mem_sextetsOf hn)).2.2.2
    simp [sextetOf, hread]
  rw [encode_eq_map, List.map_map, List.map_congr_left hsymbol, List.map_id]

/-- Bytes whose text begins that of other bytes begin these. -/
theorem prefix_of_encode_prefix {as bs : List UInt8} (h : encode as <+: encode bs) : as <+: bs := by
  have hsextets := h.map sextetOf
  rw [map_sextetOf_encode, map_sextetOf_encode] at hsextets
  exact prefix_of_sextetsOf_prefix hsextets

end Keyset.Base64
