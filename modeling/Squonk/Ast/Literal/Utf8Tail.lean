import Squonk.Tokenizer.Escape
import Squonk.Utf8.Basic

/-!
# Checking UTF-8 byte by byte

The three bytes of state by which decoded bytes are checked to be a text, without keeping them.
-/

open squonk.tokenizer.escape

namespace squonk.ast.literal

theorem utf8_run_cons (tail : Utf8Tail) (b : UInt8) (bytes : List UInt8) :
    utf8_run tail (b :: bytes) = (utf8_tail_push tail b).bind fun tail => utf8_run tail bytes :=
  List.foldlM_cons

/-- Inside of a character the next byte is one of a range, and others may follow it. -/
theorem utf8_run_inside (n : Nat) (lo hi : UInt8) (bytes : List UInt8) :
    utf8_run (n + 1, lo, hi) bytes = some UTF8_TAIL_START ↔
      ∃ b rest, bytes = b :: rest ∧ (lo.toNat ≤ b.toNat ∧ b.toNat ≤ hi.toNat) ∧
        utf8_run (n, 0x80, 0xBF) rest = some UTF8_TAIL_START := by
  cases bytes with
  | nil => simp [utf8_run, UTF8_TAIL_START]
  | cons b rest =>
    have hpush : utf8_tail_push (n + 1, lo, hi) b =
        if lo.toNat ≤ b.toNat ∧ b.toNat ≤ hi.toNat then some (n, 0x80, 0xBF) else none := by
      simp only [utf8_tail_push, UInt8.le_iff_toNat_le, Bool.and_eq_true, decide_eq_true_eq]
      rfl
    rw [utf8_run_cons, hpush]
    constructor
    · intro h
      split at h
      · exact ⟨b, rest, rfl, ‹_›, h⟩
      · cases h
    · rintro ⟨b', rest', heq, hrange, h⟩
      cases heq
      rw [if_pos hrange]
      exact h

/-- Where the machine goes from between two characters. -/
theorem utf8_tail_push_start (b : UInt8) :
    utf8_tail_push UTF8_TAIL_START b =
      if b.toNat ≤ 0x7F then some (0, 0x80, 0xBF)
      else if 0xC2 ≤ b.toNat ∧ b.toNat ≤ 0xDF then some (1, 0x80, 0xBF)
      else if b.toNat = 0xE0 then some (2, 0xA0, 0xBF)
      else if b.toNat = 0xED then some (2, 0x80, 0x9F)
      else if 0xE1 ≤ b.toNat ∧ b.toNat ≤ 0xEF then some (2, 0x80, 0xBF)
      else if b.toNat = 0xF0 then some (3, 0x90, 0xBF)
      else if b.toNat = 0xF4 then some (3, 0x80, 0x8F)
      else if 0xF1 ≤ b.toNat ∧ b.toNat ≤ 0xF3 then some (3, 0x80, 0xBF)
      else none := by
  simp only [utf8_tail_push, UTF8_TAIL_START, UInt8.le_iff_toNat_le, ← UInt8.toNat_inj,
    beq_iff_eq, Bool.and_eq_true, decide_eq_true_eq]
  rfl

theorem utf8_run_one_more (bytes : List UInt8) :
    utf8_run (1, 0x80, 0xBF) bytes = some UTF8_TAIL_START ↔
      ∃ b rest, bytes = b :: rest ∧ utf8.Tail b ∧
        utf8_run UTF8_TAIL_START rest = some UTF8_TAIL_START :=
  utf8_run_inside 0 0x80 0xBF bytes

theorem utf8_run_two_more (lo hi : UInt8) (bytes : List UInt8) :
    utf8_run (2, lo, hi) bytes = some UTF8_TAIL_START ↔
      ∃ b c rest, bytes = b :: c :: rest ∧ (lo.toNat ≤ b.toNat ∧ b.toNat ≤ hi.toNat) ∧
        utf8.Tail c ∧ utf8_run UTF8_TAIL_START rest = some UTF8_TAIL_START := by
  rw [utf8_run_inside 1 lo hi bytes]
  constructor
  · rintro ⟨b, rest, rfl, hb, h⟩
    obtain ⟨c, rest, rfl, hc, hrest⟩ := (utf8_run_one_more rest).mp h
    exact ⟨b, c, rest, rfl, hb, hc, hrest⟩
  · rintro ⟨b, c, rest, rfl, hb, hc, hrest⟩
    exact ⟨b, c :: rest, rfl, hb, (utf8_run_one_more _).mpr ⟨c, rest, rfl, hc, hrest⟩⟩

theorem utf8_run_three_more (lo hi : UInt8) (bytes : List UInt8) :
    utf8_run (3, lo, hi) bytes = some UTF8_TAIL_START ↔
      ∃ b c d rest, bytes = b :: c :: d :: rest ∧ (lo.toNat ≤ b.toNat ∧ b.toNat ≤ hi.toNat) ∧
        utf8.Tail c ∧ utf8.Tail d ∧ utf8_run UTF8_TAIL_START rest = some UTF8_TAIL_START := by
  rw [utf8_run_inside 2 lo hi bytes]
  constructor
  · rintro ⟨b, rest, rfl, hb, h⟩
    obtain ⟨c, d, rest, rfl, hc, hd, hrest⟩ := (utf8_run_two_more 0x80 0xBF rest).mp h
    exact ⟨b, c, d, rest, rfl, hb, hc, hd, hrest⟩
  · rintro ⟨b, c, d, rest, rfl, hb, hc, hd, hrest⟩
    exact ⟨b, c :: d :: rest, rfl, hb,
      (utf8_run_two_more 0x80 0xBF _).mpr ⟨c, d, rest, rfl, hc, hd, hrest⟩⟩

/-- What is read whole from between two characters begins with a character. -/
theorem exists_encoding_of_utf8_run {a : UInt8} {bytes : List UInt8}
    (h : utf8_run UTF8_TAIL_START (a :: bytes) = some UTF8_TAIL_START) :
    ∃ front rest, a :: bytes = front ++ rest ∧ utf8.Encoding front ∧
      utf8_run UTF8_TAIL_START rest = some UTF8_TAIL_START := by
  have hA0 : (0xA0 : UInt8).toNat = 0xA0 := rfl
  have h9F : (0x9F : UInt8).toNat = 0x9F := rfl
  have h90 : (0x90 : UInt8).toNat = 0x90 := rfl
  have h8F : (0x8F : UInt8).toNat = 0x8F := rfl
  have h80 : (0x80 : UInt8).toNat = 0x80 := rfl
  have hBF : (0xBF : UInt8).toNat = 0xBF := rfl
  rw [utf8_run_cons, utf8_tail_push_start] at h
  split at h
  · exact ⟨[a], bytes, rfl, .one ‹_›, h⟩
  split at h
  · rename_i ha
    obtain ⟨b, rest, rfl, hb, hrest⟩ := (utf8_run_one_more bytes).mp h
    exact ⟨[a, b], rest, rfl, .two ha.1 ha.2 hb, hrest⟩
  -- three bytes, with a second byte in a range of its own behind 0xE0 and 0xED
  have hthree {lo hi : UInt8} (ha : 0xE0 ≤ a.toNat) (ha' : a.toNat ≤ 0xEF)
      (hlo : 0x80 ≤ lo.toNat) (hhi : hi.toNat ≤ 0xBF) (hshort : a.toNat = 0xE0 → 0xA0 ≤ lo.toNat)
      (hsurrogate : a.toNat = 0xED → hi.toNat ≤ 0x9F)
      (hrun : utf8_run (2, lo, hi) bytes = some UTF8_TAIL_START) :
      ∃ front rest, a :: bytes = front ++ rest ∧ utf8.Encoding front ∧
        utf8_run UTF8_TAIL_START rest = some UTF8_TAIL_START := by
    obtain ⟨b, c, rest, rfl, hb, hc, hrest⟩ := (utf8_run_two_more lo hi bytes).mp hrun
    refine ⟨[a, b, c], rest, rfl, .three ha ha' ⟨by omega, by omega⟩ hc ?_ ?_, hrest⟩
    · intro heq
      have := hshort heq
      omega
    · intro heq
      have := hsurrogate heq
      omega
  have hfour {lo hi : UInt8} (ha : 0xF0 ≤ a.toNat) (ha' : a.toNat ≤ 0xF4)
      (hlo : 0x80 ≤ lo.toNat) (hhi : hi.toNat ≤ 0xBF) (hshort : a.toNat = 0xF0 → 0x90 ≤ lo.toNat)
      (hlarge : a.toNat = 0xF4 → hi.toNat ≤ 0x8F)
      (hrun : utf8_run (3, lo, hi) bytes = some UTF8_TAIL_START) :
      ∃ front rest, a :: bytes = front ++ rest ∧ utf8.Encoding front ∧
        utf8_run UTF8_TAIL_START rest = some UTF8_TAIL_START := by
    obtain ⟨b, c, d, rest, rfl, hb, hc, hd, hrest⟩ := (utf8_run_three_more lo hi bytes).mp hrun
    refine ⟨[a, b, c, d], rest, rfl, .four ha ha' ⟨by omega, by omega⟩ hc hd ?_ ?_, hrest⟩
    · intro heq
      have := hshort heq
      omega
    · intro heq
      have := hlarge heq
      omega
  split at h
  · exact hthree (by omega) (by omega) (by omega) (by omega) (by omega) (by omega) h
  split at h
  · exact hthree (by omega) (by omega) (by omega) (by omega) (by omega) (by omega) h
  split at h
  · exact hthree (by omega) (by omega) (by omega) (by omega) (by omega) (by omega) h
  split at h
  · exact hfour (by omega) (by omega) (by omega) (by omega) (by omega) (by omega) h
  split at h
  · exact hfour (by omega) (by omega) (by omega) (by omega) (by omega) (by omega) h
  split at h
  · exact hfour (by omega) (by omega) (by omega) (by omega) (by omega) (by omega) h
  · cases h

/-- A character is read from between two characters to between two characters. -/
theorem utf8_run_encoding {front : List UInt8} (hfront : utf8.Encoding front) {rest : List UInt8}
    (hrest : utf8_run UTF8_TAIL_START rest = some UTF8_TAIL_START) :
    utf8_run UTF8_TAIL_START (front ++ rest) = some UTF8_TAIL_START := by
  cases hfront with
  | one ha =>
    rw [List.singleton_append, utf8_run_cons, utf8_tail_push_start, if_pos ha]
    exact hrest
  | @two a b ha ha' hb =>
    rw [List.cons_append, utf8_run_cons, utf8_tail_push_start, if_neg (by omega),
      if_pos ⟨ha, ha'⟩]
    exact (utf8_run_one_more _).mpr ⟨b, rest, rfl, hb, hrest⟩
  | @three a b c ha ha' hb hc hshort hsurrogate =>
    rw [List.cons_append, utf8_run_cons, utf8_tail_push_start, if_neg (by omega),
      if_neg (by omega)]
    have htwo {lo hi : UInt8} (hlo : lo.toNat ≤ b.toNat) (hhi : b.toNat ≤ hi.toNat) :
        utf8_run (2, lo, hi) (b :: c :: rest) = some UTF8_TAIL_START :=
      (utf8_run_two_more lo hi _).mpr ⟨b, c, rest, rfl, ⟨hlo, hhi⟩, hc, hrest⟩
    split
    · exact htwo (hshort ‹_›) hb.2
    split
    · exact htwo hb.1 (hsurrogate ‹_›)
    · rw [if_pos (by omega)]
      exact htwo hb.1 hb.2
  | @four a b c d ha ha' hb hc hd hshort hlarge =>
    rw [List.cons_append, utf8_run_cons, utf8_tail_push_start, if_neg (by omega),
      if_neg (by omega), if_neg (by omega), if_neg (by omega), if_neg (by omega)]
    have hthree {lo hi : UInt8} (hlo : lo.toNat ≤ b.toNat) (hhi : b.toNat ≤ hi.toNat) :
        utf8_run (3, lo, hi) (b :: c :: d :: rest) = some UTF8_TAIL_START :=
      (utf8_run_three_more lo hi _).mpr ⟨b, c, d, rest, rfl, ⟨hlo, hhi⟩, hc, hd, hrest⟩
    split
    · exact hthree (hshort ‹_›) hb.2
    split
    · exact hthree hb.1 (hlarge ‹_›)
    · rw [if_pos (by omega)]
      exact hthree hb.1 hb.2

/-- The machine accepts just the byte sequences that are a text. -/
theorem utf8_run_iff (bytes : List UInt8) :
    utf8_run UTF8_TAIL_START bytes = some UTF8_TAIL_START ↔ utf8.WellFormed bytes := by
  constructor
  · intro h
    induction hn : bytes.length using Nat.strong_induction_on generalizing bytes with
    | _ n ih =>
      cases bytes with
      | nil => exact utf8.wellFormed_nil
      | cons a bytes =>
        obtain ⟨front, rest, heq, hfront, hrest⟩ := exists_encoding_of_utf8_run h
        have hpos := hfront.length_pos
        rw [heq] at hn ⊢
        rw [List.length_append] at hn
        exact utf8.wellFormed_append hfront (ih rest.length (by omega) rest hrest rfl)
  · rintro ⟨text, rfl⟩
    induction text with
    | nil => rfl
    | cons c text ih =>
      rw [utf8.encode_cons]
      exact utf8_run_encoding (utf8.encoding_encode c) ih

end squonk.ast.literal
