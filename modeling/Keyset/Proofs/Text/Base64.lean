import Keyset.Proofs.Text.Utf8
import Keyset.Text.Base64

/-!
# Base64 is read back

`decode_encode`: the text of a list of bytes is read as that list. The text consists of symbols only (`isSymbol_of_mem_encode`),
so it has no padding and is one byte for every character (`encode_utf8`). Bytes are taken as the numbers of their symbols
(`sextetsOf`), and a group at a time.
-/

namespace Keyset.Base64

/-! ## Symbols -/

/-- The characters of the alphabet. -/
def IsSymbol (c : Char) : Prop :=
  c.isAlphanum = true ∨ c = '-' ∨ c = '_'

/-- Membership in the alphabet is decided by comparison. -/
instance (c : Char) : Decidable (IsSymbol c) :=
  inferInstanceAs (Decidable (_ ∨ _))

/-- The byte of the symbol of a number. -/
def symbolByte (n : Nat) : UInt8 :=
  UInt8.ofNat (symbol n).toNat

/-- What holds of the symbols of all numbers below 64: they are in the alphabet, one byte long, no padding, and read back. -/
theorem symbol_spec {n : Nat} (h : n < 64) :
    IsSymbol (symbol n) ∧ (symbol n).toNat < 0x80 ∧ symbolByte n ≠ pad ∧ sextet? (symbolByte n) = some n := by
  revert n
  decide

theorem sextetAt_symbolByte {n : Nat} (offset : Nat) (h : n < 64) : sextetAt offset (symbolByte n) = .ok n := by
  rw [sextetAt, (symbol_spec h).2.2.2]

/-- The symbols of numbers are read as those numbers. -/
theorem sextets_symbolBytes {ns : List Nat} (offset : Nat) (h : ∀ n ∈ ns, n < 64) :
    sextets offset (ns.map symbolByte) = .ok ns := by
  induction ns generalizing offset with
  | nil => rfl
  | cons n ns ih =>
    rw [List.map_cons, sextets, sextetAt_symbolByte offset (h n List.mem_cons_self),
      ih (offset + 1) fun m hm => h m (List.mem_cons_of_mem n hm)]
    rfl

/-! ## Groups -/

/-- The numbers of the symbols that are written for bytes. -/
def sextetsOf : List UInt8 → List Nat
  | [] => []
  | [a] => [a.toNat / 4, a.toNat % 4 * 16]
  | [a, b] => [a.toNat / 4, a.toNat % 4 * 16 + b.toNat / 16, b.toNat % 16 * 4]
  | a :: b :: c :: rest =>
    a.toNat / 4 :: (a.toNat % 4 * 16 + b.toNat / 16) :: (b.toNat % 16 * 4 + c.toNat / 64) :: c.toNat % 64 :: sextetsOf rest

/-- Bytes are written by the symbols of their numbers. -/
theorem encode_eq_map (bs : List UInt8) : encode bs = (sextetsOf bs).map symbol := by
  induction bs using sextetsOf.induct with
  | case1 => rfl
  | case2 a => rfl
  | case3 a b => rfl
  | case4 a b c rest ih => simp only [encode, sextetsOf, List.map_cons, ih]

/-- Every number that is written is below 64. -/
theorem lt_of_mem_sextetsOf {bs : List UInt8} {n : Nat} (h : n ∈ sextetsOf bs) : n < 64 := by
  induction bs using sextetsOf.induct with
  | case1 => cases h
  | case2 a =>
    have ha := a.toNat_lt
    simp only [sextetsOf, List.mem_cons, List.not_mem_nil, or_false] at h
    omega
  | case3 a b =>
    have ha := a.toNat_lt
    have hb := b.toNat_lt
    simp only [sextetsOf, List.mem_cons, List.not_mem_nil, or_false] at h
    omega
  | case4 a b c rest ih =>
    have ha := a.toNat_lt
    have hb := b.toNat_lt
    have hc := c.toNat_lt
    simp only [sextetsOf, List.mem_cons] at h
    rcases h with h | h | h | h | h
    · omega
    · omega
    · omega
    · omega
    · exact ih h

/-- The text of bytes is made of symbols. -/
theorem isSymbol_of_mem_encode {bs : List UInt8} {c : Char} (h : c ∈ encode bs) : IsSymbol c := by
  rw [encode_eq_map] at h
  obtain ⟨n, hn, rfl⟩ := List.mem_map.1 h
  exact (symbol_spec (lt_of_mem_sextetsOf hn)).1

/-- The bytes of the text of bytes are those of the symbols. -/
theorem encode_utf8 (bs : List UInt8) : Utf8.encode (encode bs) = (sextetsOf bs).map symbolByte := by
  have hascii : ∀ c ∈ encode bs, c.toNat < 0x80 := by
    intro c hc
    rw [encode_eq_map] at hc
    obtain ⟨n, hn, rfl⟩ := List.mem_map.1 hc
    exact (symbol_spec (lt_of_mem_sextetsOf hn)).2.1
  rw [Utf8.encode_ascii hascii, encode_eq_map, List.map_map]
  rfl

/-! ## Reading back -/

theorem ne_pad_of_mem {ns : List Nat} (h : ∀ n ∈ ns, n < 64) {b : UInt8} (hb : b ∈ ns.map symbolByte) : b ≠ pad := by
  obtain ⟨n, hn, rfl⟩ := List.mem_map.1 hb
  exact (symbol_spec (h n hn)).2.2.1

/-- A last group of symbols has no padding, so only its unused bits are looked at. -/
theorem decodeLast_symbolBytes {ns : List Nat} (length offset : Nat) (h : ∀ n ∈ ns, n < 64) (htwo : 2 ≤ ns.length) :
    decodeLast length offset (ns.map symbolByte) =
      bytesOfLast length (offset + ns.length - 1) ((ns.map symbolByte).getLastD pad) ns := by
  have hpad : ∀ b ∈ ns.map symbolByte, decide (b ≠ pad) = true := by
    intro b hb
    exact decide_eq_true (ne_pad_of_mem h hb)
  have htake : (ns.map symbolByte).takeWhile (· ≠ pad) = ns.map symbolByte := by
    rw [← List.append_nil (ns.map symbolByte), List.takeWhile_append_of_pos hpad, List.takeWhile_nil]
  have hdrop : (ns.map symbolByte).dropWhile (· ≠ pad) = [] := by
    rw [← List.append_nil (ns.map symbolByte), List.dropWhile_append_of_pos hpad, List.dropWhile_nil]
  have hshort : ¬ ns.length < 2 := by omega
  simp only [decodeLast, htake, hdrop, sextets_symbolBytes offset h, bind, Except.bind, List.length_map]
  rw [if_neg (fun hc => hc.1 rfl), if_neg hshort, if_neg (fun hc => hc rfl)]

theorem byte_of_two (a : UInt8) : UInt8.ofNat (a.toNat / 4 * 4 + a.toNat % 4 * 16 / 16) = a := by
  have hsum : a.toNat / 4 * 4 + a.toNat % 4 * 16 / 16 = a.toNat := by omega
  rw [hsum, UInt8.ofNat_toNat]

theorem first_byte (a b : UInt8) : UInt8.ofNat (a.toNat / 4 * 4 + (a.toNat % 4 * 16 + b.toNat / 16) / 16) = a := by
  have hb := b.toNat_lt
  have hsum : a.toNat / 4 * 4 + (a.toNat % 4 * 16 + b.toNat / 16) / 16 = a.toNat := by omega
  rw [hsum, UInt8.ofNat_toNat]

/-- The symbols around the second byte give it back, whatever the third byte put into its symbol. -/
theorem second_byte (a b : UInt8) {c : Nat} (h : c < 4) :
    UInt8.ofNat ((a.toNat % 4 * 16 + b.toNat / 16) % 16 * 16 + (b.toNat % 16 * 4 + c) / 4) = b := by
  have hb := b.toNat_lt
  have hsum : (a.toNat % 4 * 16 + b.toNat / 16) % 16 * 16 + (b.toNat % 16 * 4 + c) / 4 = b.toNat := by omega
  rw [hsum, UInt8.ofNat_toNat]

theorem third_byte (b c : UInt8) : UInt8.ofNat ((b.toNat % 16 * 4 + c.toNat / 64) % 4 * 64 + c.toNat % 64) = c := by
  have hc := c.toNat_lt
  have hsum : (b.toNat % 16 * 4 + c.toNat / 64) % 4 * 64 + c.toNat % 64 = c.toNat := by omega
  rw [hsum, UInt8.ofNat_toNat]

/-- The numbers of three bytes give back the three bytes. -/
theorem bytesOfGroup_sextets (a b c : UInt8) :
    bytesOfGroup (a.toNat / 4) (a.toNat % 4 * 16 + b.toNat / 16) (b.toNat % 16 * 4 + c.toNat / 64) (c.toNat % 64) =
      [a, b, c] := by
  have hc := c.toNat_lt
  rw [bytesOfGroup, first_byte, second_byte a b (by omega), third_byte]

/-- The symbols of a list of bytes, read as the last group, are those bytes when there are one to three of them. -/
theorem decodeLast_sextetsOf (bs : List UInt8) (length offset : Nat) (h : 1 ≤ bs.length) (hthree : bs.length ≤ 3) :
    decodeLast length offset ((sextetsOf bs).map symbolByte) = .ok bs := by
  match bs, h, hthree with
  | [a], _, _ =>
    have htwo : 2 ≤ (sextetsOf [a]).length := Nat.le_refl 2
    rw [decodeLast_symbolBytes length offset (fun n hn => lt_of_mem_sextetsOf hn) htwo]
    simp only [sextetsOf, bytesOfLast, byte_of_two]
    rw [if_pos (by omega)]
  | [a, b], _, _ =>
    have htwo : 2 ≤ (sextetsOf [a, b]).length := Nat.le_succ 2
    rw [decodeLast_symbolBytes length offset (fun n hn => lt_of_mem_sextetsOf hn) htwo]
    have hsecond := second_byte a b (Nat.zero_lt_succ 3)
    rw [Nat.add_zero] at hsecond
    simp only [sextetsOf, bytesOfLast, first_byte, hsecond]
    rw [if_pos (by omega)]
  | [a, b, c], _, _ =>
    have htwo : 2 ≤ (sextetsOf [a, b, c]).length := Nat.le_add_right 2 2
    rw [decodeLast_symbolBytes length offset (fun n hn => lt_of_mem_sextetsOf hn) htwo]
    simp only [sextetsOf, bytesOfLast, bytesOfGroup_sextets]
  | [], h, _ => exact absurd h (by decide)
  | _ :: _ :: _ :: _ :: _, _, h => exact absurd h (by simp)

/-- Bytes that are there are written by symbols that are there. -/
theorem sextetsOf_ne_nil {bs : List UInt8} (h : bs ≠ []) : sextetsOf bs ≠ [] := by
  match bs, h with
  | [a], _ => exact List.cons_ne_nil _ _
  | [a, b], _ => exact List.cons_ne_nil _ _
  | a :: b :: c :: rest, _ => exact List.cons_ne_nil _ _

/-- A whole group with symbols behind it is read as three bytes, then the rest. -/
theorem decodeFrom_group (length offset : Nat) {a b c d : Nat} {ns : List Nat} (ha : a < 64) (hb : b < 64) (hc : c < 64)
    (hd : d < 64) (h : ns ≠ []) :
    decodeFrom length offset ((a :: b :: c :: d :: ns).map symbolByte) =
      (decodeFrom length (offset + 4) (ns.map symbolByte)).map (bytesOfGroup a b c d ++ ·) := by
  obtain ⟨e, rest, rfl⟩ := List.exists_cons_of_ne_nil h
  simp only [List.map_cons, decodeFrom, sextetAt_symbolByte _ ha, sextetAt_symbolByte _ hb, sextetAt_symbolByte _ hc,
    sextetAt_symbolByte _ hd, bind, Except.bind]
  cases decodeFrom length (offset + 4) (symbolByte e :: rest.map symbolByte) <;> rfl

/-- The symbols of bytes are read as those bytes. -/
theorem decodeFrom_sextetsOf {bs : List UInt8} (length offset : Nat) (h : bs ≠ []) :
    decodeFrom length offset ((sextetsOf bs).map symbolByte) = .ok bs := by
  induction bs using sextetsOf.induct generalizing offset with
  | case1 => exact absurd rfl h
  | case2 a => exact decodeLast_sextetsOf [a] length offset (Nat.le_refl 1) (Nat.le_add_right 1 2)
  | case3 a b => exact decodeLast_sextetsOf [a, b] length offset (Nat.le_succ 1) (Nat.le_succ 2)
  | case4 a b c rest ih =>
    by_cases hrest : rest = []
    · subst hrest
      exact decodeLast_sextetsOf [a, b, c] length offset (Nat.le_add_right 1 2) (Nat.le_refl 3)
    · have hlt : ∀ n ∈ sextetsOf (a :: b :: c :: rest), n < 64 := by
        intro n hn
        exact lt_of_mem_sextetsOf hn
      simp only [sextetsOf, List.forall_mem_cons] at hlt
      obtain ⟨h1, h2, h3, h4, -⟩ := hlt
      rw [sextetsOf, decodeFrom_group length offset h1 h2 h3 h4 (sextetsOf_ne_nil hrest), ih (offset + 4) hrest,
        bytesOfGroup_sextets]
      rfl

/-- The text of a list of bytes is read as that list. -/
theorem decode_encode (bs : List UInt8) : decode (Utf8.encode (encode bs)) = .ok bs := by
  rw [encode_utf8]
  by_cases h : bs = []
  · subst h
    rfl
  · have hne := sextetsOf_ne_nil h
    have hlast : sextet? (((sextetsOf bs).map symbolByte).getLastD pad) ≠ none := by
      rw [List.getLastD_eq_getLast?, List.getLast?_map, List.getLast?_eq_some_getLast hne, Option.map_some, Option.getD_some,
        (symbol_spec (lt_of_mem_sextetsOf (List.getLast_mem hne))).2.2.2]
      exact Option.some_ne_none _
    rw [decode, if_neg (fun hc => hlast hc.2.2), if_neg (fun hc => hne (List.map_eq_nil_iff.1 hc)), decodeFrom_sextetsOf _ _ h]

theorem encode_ne_nil {bs : List UInt8} (h : bs ≠ []) : encode bs ≠ [] := by
  rw [encode_eq_map]
  intro hsymbols
  exact sextetsOf_ne_nil h (List.map_eq_nil_iff.1 hsymbols)

end Keyset.Base64
