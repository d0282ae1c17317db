import Keyset.Text.Utf8

/-!
# UTF-8 is read back

`decode_encode`: the bytes of a text are well-formed to their end, and give the text back. The bytes of characters below 128
are their code points (`encode_ascii`). Where the bytes of a text are cut, the text is cut, too (`decode_of_prefix`).
-/

namespace Keyset.Utf8

theorem toNat_byte {n : Nat} (h : n < 256) : (UInt8.ofNat n).toNat = n :=
  UInt8.toNat_ofNat_of_lt' h

theorem scalar?_toNat {c : Char} {least : Nat} (h : least ≤ c.toNat) : scalar? least c.toNat = some c := by
  rw [scalar?, if_pos ⟨c.valid, h⟩, Char.ofNat_toNat]

/-- A continuation byte that is not the last one adds six bits. -/
theorem step_continuation {left least value x : Nat} (hleft : 1 < left) (hx : x < 64) :
    step (.within left least value) (UInt8.ofNat (x + 0x80)) = (none, .within (left - 1) least (64 * value + x)) := by
  have hbyte : x + 0x80 < 256 := by omega
  have hcode : 64 * value + (x + 0x80 - 0x80) = 64 * value + x := by omega
  simp only [step, toNat_byte hbyte, hcode]
  rw [if_neg (by omega), if_pos hleft]

/-- The last continuation byte completes the character. -/
theorem step_last {least value x : Nat} {c : Char} (hx : x < 64) (hcode : 64 * value + x = c.toNat) (hleast : least ≤ c.toNat) :
    step (.within 1 least value) (UInt8.ofNat (x + 0x80)) = (some c, .between) := by
  have hbyte : x + 0x80 < 256 := by omega
  have hsum : 64 * value + (x + 0x80 - 0x80) = c.toNat := by omega
  simp only [step, toNat_byte hbyte, hsum, scalar?_toNat hleast]
  rw [if_neg (by omega), if_neg (by decide)]

/-- The bytes of a character are read as that character. -/
theorem run_encodeChar (c : Char) : run .between (String.utf8EncodeChar c) = ([c], .between) := by
  obtain ⟨v, hv⟩ : ∃ v, c.val.toNat = v := ⟨_, rfl⟩
  have hcode : c.toNat = v := hv
  have hmax : v < 0x110000 := by
    have := c.valid
    simp only [UInt32.isValidChar, Nat.isValidChar, hv] at this
    omega
  simp only [String.utf8EncodeChar, hv]
  -- One case for each number of bytes: a first byte with the upper bits, then six bits in every byte.
  split
  · have hfirst : step .between (UInt8.ofNat v) = (some c, .between) := by
      have hbyte : v < 256 := by omega
      simp only [step, toNat_byte hbyte]
      rw [if_pos (by omega), ← hcode, Char.ofNat_toNat]
    simp only [run, hfirst]
    rfl
  split
  · have hfirst : step .between (UInt8.ofNat (v / 64 % 0x20 + 0xc0)) = (none, .within 1 0x80 (v / 64 % 0x20)) := by
      have hbyte : v / 64 % 0x20 + 0xc0 < 256 := by omega
      simp only [step, toNat_byte hbyte]
      rw [if_neg (by omega), if_neg (by omega), if_pos (by omega), Nat.add_sub_cancel]
    have hlast : step (.within 1 0x80 (v / 64 % 0x20)) (UInt8.ofNat (v % 0x40 + 0x80)) = (some c, .between) :=
      step_last (by omega) (by omega) (by omega)
    simp only [run, hfirst, hlast]
    rfl
  split
  · have hfirst : step .between (UInt8.ofNat (v / 4096 % 0x10 + 0xe0)) = (none, .within 2 0x800 (v / 4096 % 0x10)) := by
      have hbyte : v / 4096 % 0x10 + 0xe0 < 256 := by omega
      simp only [step, toNat_byte hbyte]
      rw [if_neg (by omega), if_neg (by omega), if_neg (by omega), if_pos (by omega), Nat.add_sub_cancel]
    have hsecond : step (.within 2 0x800 (v / 4096 % 0x10)) (UInt8.ofNat (v / 64 % 0x40 + 0x80)) =
        (none, .within 1 0x800 (64 * (v / 4096 % 0x10) + v / 64 % 0x40)) :=
      step_continuation (by decide) (by omega)
    have hlast : step (.within 1 0x800 (64 * (v / 4096 % 0x10) + v / 64 % 0x40)) (UInt8.ofNat (v % 0x40 + 0x80)) =
        (some c, .between) := step_last (by omega) (by omega) (by omega)
    simp only [run, hfirst, hsecond, hlast]
    rfl
  · have hfirst : step .between (UInt8.ofNat (v / 262144 % 0x08 + 0xf0)) =
        (none, .within 3 0x10000 (v / 262144 % 0x08)) := by
      have hbyte : v / 262144 % 0x08 + 0xf0 < 256 := by omega
      simp only [step, toNat_byte hbyte]
      rw [if_neg (by omega), if_neg (by omega), if_neg (by omega), if_neg (by omega), if_pos (by omega),
        Nat.add_sub_cancel]
    have hsecond : step (.within 3 0x10000 (v / 262144 % 0x08)) (UInt8.ofNat (v / 4096 % 0x40 + 0x80)) =
        (none, .within 2 0x10000 (64 * (v / 262144 % 0x08) + v / 4096 % 0x40)) :=
      step_continuation (by decide) (by omega)
    have hthird : step (.within 2 0x10000 (64 * (v / 262144 % 0x08) + v / 4096 % 0x40))
        (UInt8.ofNat (v / 64 % 0x40 + 0x80)) =
        (none, .within 1 0x10000 (64 * (64 * (v / 262144 % 0x08) + v / 4096 % 0x40) + v / 64 % 0x40)) :=
      step_continuation (by decide) (by omega)
    have hlast : step (.within 1 0x10000 (64 * (64 * (v / 262144 % 0x08) + v / 4096 % 0x40) + v / 64 % 0x40))
        (UInt8.ofNat (v % 0x40 + 0x80)) = (some c, .between) := step_last (by omega) (by omega) (by omega)
    simp only [run, hfirst, hsecond, hthird, hlast]
    rfl

/-- The bytes of a text are read as that text. -/
theorem run_encode (cs : List Char) : run .between (encode cs) = (cs, .between) := by
  induction cs with
  | nil => rfl
  | cons c cs ih =>
    have hsplit : encode (c :: cs) = String.utf8EncodeChar c ++ encode cs := rfl
    rw [hsplit, run_append, run_encodeChar]
    simp only [ih, List.cons_append, List.nil_append]

/-- The bytes of a text are well-formed to their end, and give the text back. -/
theorem decode_encode (cs : List Char) : decode (encode cs) = (cs, true) := by
  simp only [decode, run_encode, decide_true]

/-- Only the empty text has no bytes. -/
theorem encode_ne_nil {cs : List Char} (h : cs ≠ []) : encode cs ≠ [] := by
  intro hbytes
  have hback := decode_encode cs
  rw [hbytes] at hback
  exact h (congrArg Prod.fst hback).symm

/-- A character below 128 is one byte, its code point. -/
theorem encode_ascii {cs : List Char} (h : ∀ c ∈ cs, c.toNat < 0x80) :
    encode cs = cs.map fun c => UInt8.ofNat c.toNat := by
  induction cs with
  | nil => rfl
  | cons c cs ih =>
    have hc : c.val.toNat ≤ 0x7f := Nat.le_of_lt_succ (h c List.mem_cons_self)
    have hchar : String.utf8EncodeChar c = [UInt8.ofNat c.toNat] := by
      simp only [String.utf8EncodeChar]
      rw [if_pos hc]
      rfl
    have hsplit : encode (c :: cs) = String.utf8EncodeChar c ++ encode cs := rfl
    have hrest : ∀ d ∈ cs, d.toNat < 0x80 := by
      intro d hd
      exact h d (List.mem_cons_of_mem c hd)
    rw [hsplit, hchar, ih hrest]
    rfl

theorem encode_inj {cs ds : List Char} (h : encode cs = encode ds) : cs = ds := by
  have hcs := decode_encode cs
  rw [h, decode_encode] at hcs
  exact (congrArg Prod.fst hcs).symm

/-- A text has as many bytes as its size says. -/
theorem length_encode (cs : List Char) : (encode cs).length = (String.ofList cs).utf8ByteSize := by
  induction cs with
  | nil => rfl
  | cons c cs ih =>
    have hsplit : encode (c :: cs) = String.utf8EncodeChar c ++ encode cs := rfl
    rw [hsplit, List.length_append, ih, String.length_utf8EncodeChar, String.ofList_cons, String.utf8ByteSize_append,
      String.utf8ByteSize_singleton]

/-! ## Texts that are cut -/

/-- A byte behind which the decoder stands between characters completes one. -/
theorem step_ne_none {s : State} {b : UInt8} (h : (step s b).2 = .between) : (step s b).1 ≠ none := by
  intro hnone
  unfold step at h hnone
  grind

/-- Bytes behind which the decoder stands between characters complete some. -/
theorem run_ne_nil {s : State} {bs : List UInt8} (hne : bs ≠ []) (h : (run s bs).2 = .between) : (run s bs).1 ≠ [] := by
  induction bs generalizing s with
  | nil => exact absurd rfl hne
  | cons b bs ih =>
    intro hnil
    simp only [run, List.append_eq_nil_iff] at h hnil
    by_cases hbs : bs = []
    · subst hbs
      exact step_ne_none h (Option.toList_eq_nil_iff.1 hnil.1)
    · exact ih hbs h hnil.2

/-- What is read of the first bytes of a text, if not all of them are there, is the beginning of the text, and not all of it. -/
theorem decode_of_prefix {cs : List Char} {bs : List UInt8} (h : bs <+: encode cs) (hne : bs ≠ encode cs) :
    (decode bs).1 <+: cs ∧ (decode bs).1 ≠ cs := by
  obtain ⟨rest, hrest⟩ := h
  have hrun := run_encode cs
  rw [← hrest, run_append] at hrun
  obtain ⟨hchars, hstate⟩ := Prod.mk.inj hrun
  have hrest : rest ≠ [] := by
    rintro rfl
    rw [List.append_nil] at hrest
    exact hne hrest
  have hmore := run_ne_nil hrest hstate
  have hfirst : (decode bs).1 = (run .between bs).1 := rfl
  rw [hfirst]
  refine ⟨⟨_, hchars⟩, ?_⟩
  intro heq
  rw [heq, List.append_right_eq_self] at hchars
  exact hmore hchars

end Keyset.Utf8
