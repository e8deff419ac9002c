import Mathlib.Data.List.Basic
import Mathlib.Tactic.Linarith

/-!
# UTF-8

Which sequences of bytes encode a character, by the ranges that each byte is in, and which encode
a text.
-/

namespace utf8

/-- The bytes of a text. -/
def encode (text : List Char) : List UInt8 := text.flatMap String.utf8EncodeChar

def WellFormed (bytes : List UInt8) : Prop := ∃ text, bytes = encode text

/-- A byte that is not the first one of its character. -/
def Tail (byte : UInt8) : Prop := 0x80 ≤ byte.toNat ∧ byte.toNat ≤ 0xBF

/-- The encodings of characters. A sequence of three bytes encodes neither what takes two nor a
    surrogate, and one of four neither what takes three nor a number above all characters. -/
inductive Encoding : List UInt8 → Prop
  | one {a : UInt8} (ha : a.toNat ≤ 0x7F) : Encoding [a]
  | two {a b : UInt8} (ha : 0xC2 ≤ a.toNat) (ha' : a.toNat ≤ 0xDF) (hb : Tail b) : Encoding [a, b]
  | three {a b c : UInt8} (ha : 0xE0 ≤ a.toNat) (ha' : a.toNat ≤ 0xEF) (hb : Tail b) (hc : Tail c)
      (hshort : a.toNat = 0xE0 → 0xA0 ≤ b.toNat) (hsurrogate : a.toNat = 0xED → b.toNat ≤ 0x9F) :
      Encoding [a, b, c]
  | four {a b c d : UInt8} (ha : 0xF0 ≤ a.toNat) (ha' : a.toNat ≤ 0xF4) (hb : Tail b) (hc : Tail c)
      (hd : Tail d) (hshort : a.toNat = 0xF0 → 0x90 ≤ b.toNat)
      (hlarge : a.toNat = 0xF4 → b.toNat ≤ 0x8F) : Encoding [a, b, c, d]

/-! ## Characters -/

theorem encoding_encode (c : Char) : Encoding (String.utf8EncodeChar c) := by
  have hvalid : c.val.toNat < 0xd800 ∨ 0xdfff < c.val.toNat ∧ c.val.toNat < 0x110000 := c.valid
  have htoNat (n : Nat) : (UInt8.ofNat n).toNat = n % 256 := UInt8.toNat_ofNat'
  have htail (n : Nat) : Tail (UInt8.ofNat (n % 0x40 + 0x80)) := by
    unfold Tail
    rw [htoNat]
    omega
  unfold String.utf8EncodeChar
  dsimp only
  split
  · exact .one (by rw [htoNat]; omega)
  split
  · exact .two (by rw [htoNat]; omega) (by rw [htoNat]; omega) (htail _)
  split
  · refine .three ?_ ?_ (htail _) (htail _) ?_ ?_ <;> simp only [htoNat] <;> omega
  · refine .four ?_ ?_ (htail _) (htail _) (htail _) ?_ ?_ <;> simp only [htoNat] <;> omega

theorem exists_char_toNat {n : Nat} (h : n < 0xd800 ∨ 0xdfff < n ∧ n < 0x110000) :
    ∃ c : Char, c.val.toNat = n := by
  have hlt : n < 2 ^ 32 := by omega
  exact ⟨⟨UInt32.ofNatLT n hlt, by simpa [UInt32.isValidChar] using h⟩, UInt32.toNat_ofNatLT⟩

theorem ofNat_eq {n : Nat} {byte : UInt8} (h : n = byte.toNat) : UInt8.ofNat n = byte := by
  rw [h, UInt8.ofNat_toNat]

/-- Every encoding is that of a character. -/
theorem Encoding.exists_char {bytes : List UInt8} (h : Encoding bytes) :
    ∃ c, String.utf8EncodeChar c = bytes := by
  cases h with
  | @one a ha =>
    obtain ⟨c, hc⟩ := @exists_char_toNat a.toNat (by omega)
    refine ⟨c, ?_⟩
    unfold String.utf8EncodeChar
    dsimp only
    rw [hc, if_pos ha, ofNat_eq rfl]
  | @two a b ha ha' hb =>
    unfold Tail at hb
    obtain ⟨c, hc⟩ := @exists_char_toNat ((a.toNat - 0xC0) * 64 + (b.toNat - 0x80)) (by omega)
    refine ⟨c, ?_⟩
    unfold String.utf8EncodeChar
    dsimp only
    rw [hc, if_neg (by omega), if_pos (by omega), @ofNat_eq _ a (by omega),
      @ofNat_eq _ b (by omega)]
  | @three a b d ha ha' hb hd hshort hsurrogate =>
    unfold Tail at hb hd
    obtain ⟨c, hc⟩ := @exists_char_toNat
      ((a.toNat - 0xE0) * 4096 + (b.toNat - 0x80) * 64 + (d.toNat - 0x80)) (by omega)
    have hlow : 0x7ff < c.val.toNat := by omega
    clear hshort hsurrogate
    refine ⟨c, ?_⟩
    unfold String.utf8EncodeChar
    dsimp only
    rw [if_neg (by omega), if_neg (by omega), if_pos (by omega),
      @ofNat_eq _ a (by omega), @ofNat_eq _ b (by omega),
      @ofNat_eq _ d (by omega)]
  | @four a b d e ha ha' hb hd he hshort hlarge =>
    unfold Tail at hb hd he
    obtain ⟨c, hc⟩ := @exists_char_toNat ((a.toNat - 0xF0) * 262144 + (b.toNat - 0x80) * 4096 +
      (d.toNat - 0x80) * 64 + (e.toNat - 0x80)) (by omega)
    have hlow : 0xffff < c.val.toNat := by omega
    clear hshort hlarge
    refine ⟨c, ?_⟩
    unfold String.utf8EncodeChar
    dsimp only
    rw [if_neg (by omega), if_neg (by omega), if_neg (by omega),
      @ofNat_eq _ a (by omega), @ofNat_eq _ b (by omega),
      @ofNat_eq _ d (by omega), @ofNat_eq _ e (by omega)]

theorem Encoding.length_pos {bytes : List UInt8} (h : Encoding bytes) : 0 < bytes.length := by
  cases h <;> simp

/-! ## Texts -/

theorem encode_cons (c : Char) (text : List Char) :
    encode (c :: text) = String.utf8EncodeChar c ++ encode text := List.flatMap_cons

theorem wellFormed_nil : WellFormed [] := ⟨[], rfl⟩

theorem wellFormed_append {front bytes : List UInt8} (hfront : Encoding front)
    (h : WellFormed bytes) : WellFormed (front ++ bytes) := by
  obtain ⟨c, rfl⟩ := hfront.exists_char
  obtain ⟨text, rfl⟩ := h
  exact ⟨c :: text, (encode_cons c text).symm⟩

/-- Bytes are a text just if they can be decoded. -/
theorem isSome_utf8Decode?_iff {bytes : List UInt8} :
    bytes.toByteArray.utf8Decode?.isSome = true ↔ WellFormed bytes := by
  rw [ByteArray.isSome_utf8Decode?_iff]
  constructor
  · rintro ⟨text, htext⟩
    exact ⟨text, List.toByteArray_inj.mp htext⟩
  · rintro ⟨text, rfl⟩
    exact ⟨text, rfl⟩

end utf8
