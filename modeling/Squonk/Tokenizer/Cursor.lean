import Mathlib.Data.List.Infix
import Mathlib.Data.List.TakeWhile

/-!
# The cursor

A place in a source, moved over bytes. A source is text, so some of its places lie between two
characters and the others inside of one; a cursor may stand on either.
-/

namespace squonk.tokenizer

/-! ## Sources -/

/-- A byte of a source, with the character that begins at it, if one does. -/
structure SourceByte where
  byte : UInt8
  char : Option Char
  deriving DecidableEq

/-- The bytes of a character. -/
def encode_char (c : Char) : List SourceByte :=
  match String.utf8EncodeChar c with
  | [] => []
  | first :: others => ⟨first, some c⟩ :: others.map (⟨·, none⟩)

def encode (source : List Char) : List SourceByte := source.flatMap encode_char

/-- The end of some source. -/
def IsText (bytes : List SourceByte) : Prop := ∃ source, bytes <:+ encode source

/-- Whether no character is cut in two in front of the bytes. -/
def whole (bytes : List SourceByte) : Bool := bytes.head?.all fun b => b.char.isSome

def is_char_boundary (source : List SourceByte) (pos : Nat) : Bool :=
  pos ≤ source.length && whole (source.drop pos)

/-- Whether the byte stands inside of a character. -/
def is_continuation (byte : UInt8) : Bool := 0x80 ≤ byte && byte < 0xc0

@[simp] theorem whole_nil : whole [] = true := rfl

@[simp] theorem whole_cons (b : SourceByte) (bytes : List SourceByte) :
    whole (b :: bytes) = b.char.isSome := rfl

theorem encode_cons (c : Char) (source : List Char) :
    encode (c :: source) = encode_char c ++ encode source := List.flatMap_cons

theorem encode_append (source source' : List Char) :
    encode (source ++ source') = encode source ++ encode source' := List.flatMap_append

theorem isText_encode (source : List Char) : IsText (encode source) :=
  ⟨source, List.suffix_rfl⟩

theorem IsText.of_suffix {bytes rest : List SourceByte} (h : IsText bytes)
    (hrest : rest <:+ bytes) : IsText rest := by
  obtain ⟨source, hsource⟩ := h
  exact ⟨source, hrest.trans hsource⟩

theorem is_continuation_ofNat (n : Nat) :
    is_continuation (UInt8.ofNat (n % 64 + 128)) = true := by
  have h80 : (0x80 : UInt8).toNat = 128 := rfl
  have hc0 : (0xc0 : UInt8).toNat = 192 := rfl
  have hn : n % 64 < 64 := Nat.mod_lt _ (by decide)
  simp only [is_continuation, Bool.and_eq_true, decide_eq_true_eq, UInt8.le_iff_toNat_le,
    UInt8.lt_iff_toNat_lt, UInt8.toNat_ofNat', h80, hc0]
  omega

theorem not_ofNat_lt {n : Nat} (h : 0x80 ≤ n % 256) : ¬ UInt8.ofNat n < 0x80 := by
  have h80 : (0x80 : UInt8).toNat = 128 := rfl
  simp only [UInt8.lt_iff_toNat_lt, UInt8.toNat_ofNat', h80]
  omega

/-- An encoding is a first byte and continuation bytes, and it is one byte long if the first one
    is ASCII. -/
theorem utf8EncodeChar_eq (c : Char) :
    ∃ first others, String.utf8EncodeChar c = first :: others ∧
      (first < 0x80 → others = []) ∧ others.all is_continuation = true := by
  unfold String.utf8EncodeChar
  simp only
  split
  · exact ⟨_, [], rfl, fun _ => rfl, rfl⟩
  split
  · exact ⟨_, _, rfl, fun h => absurd h (not_ofNat_lt (by omega)),
      by simp only [List.all_cons, List.all_nil, is_continuation_ofNat, Bool.and_self]⟩
  split
  · exact ⟨_, _, rfl, fun h => absurd h (not_ofNat_lt (by omega)),
      by simp only [List.all_cons, List.all_nil, is_continuation_ofNat, Bool.and_self]⟩
  · exact ⟨_, _, rfl, fun h => absurd h (not_ofNat_lt (by omega)),
      by simp only [List.all_cons, List.all_nil, is_continuation_ofNat, Bool.and_self]⟩

theorem encode_char_eq (c : Char) :
    ∃ first others, encode_char c = ⟨first, some c⟩ :: others ∧
      others.length + 1 = c.utf8Size ∧ (first < 0x80 → others = []) ∧
      ∀ b ∈ others, b.char = none ∧ is_continuation b.byte = true := by
  obtain ⟨first, others, heq, hfirst, hothers⟩ := utf8EncodeChar_eq c
  have hlength := String.length_utf8EncodeChar c
  rw [heq] at hlength
  refine ⟨first, others.map (⟨·, none⟩), by simp [encode_char, heq], by simpa using hlength, ?_, ?_⟩
  · intro hascii
    simp [hfirst hascii]
  · intro b hb
    obtain ⟨byte, hbyte, rfl⟩ := List.mem_map.mp hb
    exact ⟨rfl, List.all_eq_true.mp hothers byte hbyte⟩

theorem whole_encode (source : List Char) : whole (encode source) = true := by
  cases source with
  | nil => rfl
  | cons c source =>
    obtain ⟨first, others, heq, -⟩ := encode_char_eq c
    rw [encode_cons, heq]
    rfl

/-- A byte of a text begins a character or stands inside of one. -/
theorem IsText.byte_cases {b : SourceByte} {rest : List SourceByte} (h : IsText (b :: rest)) :
    (∃ c source, b :: rest = encode_char c ++ encode source) ∨
      b.char = none ∧ is_continuation b.byte = true := by
  obtain ⟨source, hsource⟩ := h
  induction source with
  | nil => simp [encode] at hsource
  | cons c source ih =>
    obtain ⟨first, others, heq, -, -, hothers⟩ := encode_char_eq c
    obtain ⟨front, hfront⟩ := hsource
    rw [encode_cons] at hfront
    obtain ⟨behind, hleft, hright⟩ | ⟨behind, hleft, hright⟩ :=
      List.append_eq_append_iff.mp hfront
    · -- the byte is one of `c`
      cases behind with
      | nil => exact ih ⟨[], hright⟩
      | cons b' behind =>
        obtain ⟨rfl, hrest⟩ : b = b' ∧ rest = behind ++ encode source := by simpa using hright
        cases front with
        | nil => exact .inl ⟨c, source, by rw [hleft, hrest]; rfl⟩
        | cons first' front =>
          rw [heq] at hleft
          obtain ⟨-, hleft⟩ : _ ∧ others = front ++ b :: behind := by simpa using hleft
          exact .inr (hothers b (by simp [hleft]))
    · exact ih ⟨behind, hright.symm⟩

/-- Behind an ASCII byte a character begins. -/
theorem IsText.ascii {b : SourceByte} {rest : List SourceByte} (h : IsText (b :: rest))
    (hb : b.byte < 0x80) : b.char.isSome ∧ whole rest = true := by
  obtain ⟨c, source, heq⟩ | ⟨-, hcont⟩ := h.byte_cases
  · obtain ⟨first, others, hchar, -, hfirst, -⟩ := encode_char_eq c
    rw [hchar] at heq
    obtain ⟨rfl, hrest⟩ : b = ⟨first, some c⟩ ∧ rest = others ++ encode source := by simpa using heq
    rw [hrest, hfirst hb]
    exact ⟨rfl, whole_encode source⟩
  · simp only [is_continuation, Bool.and_eq_true, decide_eq_true_eq] at hcont
    exact absurd hcont.1 (UInt8.not_le.mpr hb)

/-- A character read whole is all there, and behind it a character begins. -/
theorem IsText.char {b : SourceByte} {rest : List SourceByte} {c : Char}
    (h : IsText (b :: rest)) (hb : b.char = some c) :
    c.utf8Size ≤ rest.length + 1 ∧ whole ((b :: rest).drop c.utf8Size) = true := by
  obtain ⟨c', source, heq⟩ | ⟨hnone, -⟩ := h.byte_cases
  · obtain ⟨first, others, hchar, hsize, -, -⟩ := encode_char_eq c'
    have hhead : b = ⟨first, some c'⟩ := by
      rw [hchar] at heq
      simpa using (List.cons.inj heq).1
    obtain rfl : c' = c := by simpa [hhead] using hb
    have hlength : (encode_char c').length = c'.utf8Size := by simp [hchar, hsize]
    constructor
    · have := congrArg List.length heq
      simp only [List.length_cons, List.length_append, hlength] at this
      omega
    · rw [heq, ← hlength, List.drop_left]
      exact whole_encode source
  · simp [hnone] at hb

/-- Inside of a character stands a continuation byte. -/
theorem IsText.continuation {b : SourceByte} {rest : List SourceByte} (h : IsText (b :: rest))
    (hb : whole (b :: rest) = false) : is_continuation b.byte = true := by
  obtain ⟨c, source, heq⟩ | ⟨-, hcont⟩ := h.byte_cases
  · have hwhole := whole_encode (c :: source)
    rw [encode_cons, ← heq] at hwhole
    simp [hwhole] at hb
  · exact hcont

/-! ## Moving -/

structure Cursor where
  pos : Nat
  rest : List SourceByte
  deriving DecidableEq

namespace Cursor

def new (source : List SourceByte) : Cursor := ⟨0, source⟩

def peek_nth (self : Cursor) (n : Nat) : Option UInt8 := self.rest[n]?.map (·.byte)

def peek (self : Cursor) : Option UInt8 := self.peek_nth 0

/-- The character that begins `n` bytes ahead. -/
def char_at (self : Cursor) (n : Nat) : Option Char := self.rest[n]?.bind (·.char)

/-- Move over `n` bytes that are known to be there. -/
def advance_bytes (self : Cursor) (n : Nat) : Cursor := ⟨self.pos + n, self.rest.drop n⟩

/-- Move over one byte, unless the source has ended. -/
def bump (self : Cursor) : Cursor :=
  match self.rest with
  | [] => self
  | _ :: rest => ⟨self.pos + 1, rest⟩

/-- Move over one character. -/
def bump_char (self : Cursor) : Option Cursor :=
  (self.char_at 0).map fun c => self.advance_bytes c.utf8Size

def eat_while (self : Cursor) (pred : UInt8 → Bool) : Cursor :=
  self.advance_bytes (self.rest.takeWhile fun b => pred b.byte).length

theorem eat_while_rest (self : Cursor) (pred : UInt8 → Bool) :
    (self.eat_while pred).rest = self.rest.dropWhile fun b => pred b.byte := by
  have hdrop := List.prefix_iff_eq_append.mp
    (List.takeWhile_prefix (fun b : SourceByte => pred b.byte) (l := self.rest))
  have hsplit := List.takeWhile_append_dropWhile (p := fun b : SourceByte => pred b.byte)
    (l := self.rest)
  exact List.append_cancel_left (hdrop.trans hsplit.symm)

/-- What was read from one cursor to another. -/
def text_until (self stop : Cursor) : List SourceByte := self.rest.take (stop.pos - self.pos)

end Cursor

/-- `stop` stands at `start` or further along the same source. -/
structure Moves (start stop : Cursor) : Prop where
  suffix : stop.rest <:+ start.rest
  total : stop.pos + stop.rest.length = start.pos + start.rest.length

namespace Moves

@[refl] theorem refl (c : Cursor) : Moves c c := ⟨List.suffix_rfl, rfl⟩

theorem trans {a b c : Cursor} (h : Moves a b) (h' : Moves b c) : Moves a c :=
  ⟨h'.suffix.trans h.suffix, h'.total.trans h.total⟩

theorem pos_le {start stop : Cursor} (h : Moves start stop) : start.pos ≤ stop.pos := by
  have := h.total
  have := h.suffix.length_le
  omega

theorem isText {start stop : Cursor} (h : Moves start stop) (htext : IsText start.rest) :
    IsText stop.rest :=
  htext.of_suffix h.suffix

theorem advance_bytes {c : Cursor} {n : Nat} (h : n ≤ c.rest.length) :
    Moves c (c.advance_bytes n) := by
  constructor
  · exact List.drop_suffix n c.rest
  · simp only [Cursor.advance_bytes, List.length_drop]
    omega

theorem bump (c : Cursor) : Moves c c.bump := by
  obtain ⟨pos, rest⟩ := c
  cases rest with
  | nil => exact .refl _
  | cons b rest => exact @advance_bytes ⟨pos, b :: rest⟩ 1 (by simp)

theorem eat_while (c : Cursor) (pred : UInt8 → Bool) : Moves c (c.eat_while pred) :=
  advance_bytes (List.takeWhile_prefix _).length_le

/-- What a cursor has moved over is what it read. -/
theorem rest_eq {start stop : Cursor} (h : Moves start stop) :
    start.rest = start.text_until stop ++ stop.rest := by
  obtain ⟨front, hfront⟩ := h.suffix
  have hlength : stop.pos - start.pos = front.length := by
    have := h.total
    have := congrArg List.length hfront
    simp only [List.length_append] at this
    omega
  rw [Cursor.text_until, hlength, ← hfront, List.take_left]

end Moves

end squonk.tokenizer
