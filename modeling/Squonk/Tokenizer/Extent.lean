import Squonk.Tokenizer.Lexeme
import Squonk.Tokenizer.Spacing

/-!
# The extent of a lexeme

Every routine of the scanner moves forward, its token reaches from where it started to where it
stopped, and where it started between characters it stops between characters.
-/

open squonk.dialect squonk.dialect.lex_class squonk.document

namespace squonk.tokenizer.scan

/-- No byte of a character outside ASCII is a digit. -/
def AsciiDigits (features : FeatureSet) : Prop :=
  ∀ byte, 0x80 ≤ byte → is_digit features byte = false

/-- What is between the cursors was read, and no character was cut in two. -/
structure Reads (features : FeatureSet) (start stop : Cursor) : Prop extends Moves start stop where
  between : AsciiDigits features → whole start.rest = true → whole stop.rest = true

/-- A routine that succeeds emits a token that starts at `start` and ends at the cursor it
    leaves. -/
def Lexes (features : FeatureSet) (start : Cursor) (scanned : Scan (Token × Cursor)) : Prop :=
  ∀ token stop, scanned = .ok (token, stop) →
    token.span = ⟨start.pos, stop.pos⟩ ∧ start.pos < stop.pos ∧ Reads features start stop

variable {features : FeatureSet} {unicode : Unicode}

theorem bind_eq_ok {α β : Type} {x : Scan α} {f : α → Scan β} {b : β} :
    (x >>= f) = .ok b ↔ ∃ a, x = .ok a ∧ f a = .ok b := by
  cases x with
  | error fault => simp [bind, Except.bind]
  | ok a => simp [bind, Except.bind]

/-! ## Moving over bytes -/

theorem peek_cons (pos : Nat) (b : SourceByte) (rest : List SourceByte) :
    Cursor.peek ⟨pos, b :: rest⟩ = some b.byte := rfl

theorem peek_eq_some {c : Cursor} {byte : UInt8} (h : c.peek = some byte) :
    ∃ b rest, c.rest = b :: rest ∧ b.byte = byte := by
  obtain ⟨pos, rest⟩ := c
  cases rest with
  | nil => cases h
  | cons b rest => exact ⟨b, rest, rfl, by simpa [peek_cons] using h⟩

theorem bump_pos {c : Cursor} {byte : UInt8} (h : c.peek = some byte) :
    c.bump.pos = c.pos + 1 := by
  obtain ⟨pos, rest⟩ := c
  cases rest with
  | nil => cases h
  | cons b rest => rfl

/-- A run ends in front of a byte that is not part of it. -/
theorem peek_eat_while {c : Cursor} {pred : UInt8 → Bool} {byte : UInt8}
    (h : (c.eat_while pred).peek = some byte) : pred byte = false := by
  obtain ⟨b, rest, heq, rfl⟩ := peek_eq_some h
  rw [Cursor.eat_while_rest] at heq
  have hhead := List.head_dropWhile_not (fun b : SourceByte => pred b.byte) (l := c.rest)
    (by simp [heq])
  simpa [heq] using hhead

namespace Reads

@[refl] theorem refl (c : Cursor) : Reads features c c := ⟨.refl c, fun _ h => h⟩

theorem trans {a b c : Cursor} (h : Reads features a b) (h' : Reads features b c) :
    Reads features a c :=
  ⟨h.toMoves.trans h'.toMoves,
    fun hdigits hwhole => h'.between hdigits (h.between hdigits hwhole)⟩

/-- In front of an ASCII byte, and at the end, a character begins. -/
theorem of_ascii {start stop : Cursor} (htext : IsText start.rest) (h : Moves start stop)
    (hstop : ∀ byte, stop.peek = some byte → byte < 0x80) : Reads features start stop := by
  refine ⟨h, fun _ _ => ?_⟩
  have hrest := h.isText htext
  obtain ⟨pos, rest⟩ := stop
  cases rest with
  | nil => rfl
  | cons b rest => exact (hrest.ascii (hstop b.byte rfl)).1

/-- Behind an ASCII byte a character begins. -/
theorem behind_ascii {start c : Cursor} {byte : UInt8} (htext : IsText start.rest)
    (h : Moves start c) (hpeek : c.peek = some byte) (hbyte : byte < 0x80) :
    Reads features start c.bump := by
  refine ⟨h.trans (.bump c), fun _ _ => ?_⟩
  have hrest := h.isText htext
  obtain ⟨b, rest, heq, rfl⟩ := peek_eq_some hpeek
  obtain ⟨pos, _⟩ := c
  subst heq
  exact (hrest.ascii hbyte).2

theorem bump {c : Cursor} {byte : UInt8} (htext : IsText c.rest) (hpeek : c.peek = some byte)
    (hbyte : byte < 0x80) : Reads features c c.bump :=
  behind_ascii htext (.refl c) hpeek hbyte

theorem char {c : Cursor} {ch : Char} (htext : IsText c.rest) (h : c.char_at 0 = some ch) :
    Reads features c (c.advance_bytes ch.utf8Size) := by
  obtain ⟨pos, rest⟩ := c
  cases rest with
  | nil => cases h
  | cons b rest =>
    obtain ⟨hsize, hwhole⟩ := htext.char (c := ch) (by simpa [Cursor.char_at] using h)
    exact ⟨.advance_bytes (by simpa using hsize), fun _ _ => hwhole⟩

/-- A run of ASCII bytes. -/
theorem eat_ascii {c : Cursor} {pred : UInt8 → Bool} (htext : IsText c.rest)
    (hpred : ∀ byte, pred byte = true → byte < 0x80) : Reads features c (c.eat_while pred) := by
  refine ⟨.eat_while c pred, fun _ hwhole => ?_⟩
  obtain ⟨pos, rest⟩ := c
  show whole (rest.drop _) = true
  induction rest with
  | nil => rfl
  | cons b rest ih =>
    by_cases hb : pred b.byte = true
    · have hascii := htext.ascii (hpred _ hb)
      simp only [List.takeWhile_cons, hb, if_true, List.length_cons, List.drop_succ_cons]
      exact ih (htext.of_suffix (List.suffix_cons b rest)) hascii.2
    · simpa [List.takeWhile_cons, hb] using hwhole

/-- A run that every byte outside ASCII is part of. -/
theorem eat_all {c : Cursor} {pred : UInt8 → Bool} (htext : IsText c.rest)
    (hpred : ∀ byte, pred byte = false → byte < 0x80) : Reads features c (c.eat_while pred) := by
  refine .of_ascii htext (.eat_while c pred) fun byte hbyte => hpred byte ?_
  exact peek_eat_while hbyte

theorem bump_digit {pos : Nat} {b : SourceByte} {rest : List SourceByte}
    (htext : IsText (b :: rest)) (hb : is_digit features b.byte = true) :
    Reads features ⟨pos, b :: rest⟩ ⟨pos + 1, rest⟩ := by
  refine ⟨.bump ⟨pos, b :: rest⟩, fun hdigits _ => (htext.ascii ?_).2⟩
  by_contra hhigh
  have hdigit := hdigits b.byte (UInt8.not_lt.mp hhigh)
  rw [hb] at hdigit
  cases hdigit

end Reads

/-- Whoever has moved over the first byte has made progress. -/
theorem lt_of_bump {start stop : Cursor} {byte : UInt8} (hpeek : start.peek = some byte)
    (h : Moves start.bump stop) : start.pos < stop.pos := by
  have hpos := bump_pos hpeek
  have hle := h.pos_le
  omega

namespace Lexes

theorem emit {start stop : Cursor} {kind : TokenKind} (h : Reads features start stop)
    (hlt : start.pos < stop.pos) : Lexes features start (.ok (emit kind start stop)) := by
  rintro token stop' hok
  cases hok
  exact ⟨rfl, hlt, h⟩

theorem error {start : Cursor} {fault : Fault} : Lexes features start (.error fault) := by
  rintro token stop hok
  cases hok

theorem lex_error {start : Cursor} {kind : LexErrorKind} {first last : Nat} :
    Lexes features start (lex_error kind first last) :=
  error

theorem bind {α : Type} {start : Cursor} {x : Scan α} {f : α → Scan (Token × Cursor)}
    (h : ∀ a, x = .ok a → Lexes features start (f a)) : Lexes features start (x >>= f) := by
  rintro token stop hok
  obtain ⟨a, ha, hf⟩ := bind_eq_ok.mp hok
  exact h a ha token stop hf

theorem ite {start : Cursor} {p : Prop} [Decidable p] {x y : Scan (Token × Cursor)}
    (hx : p → Lexes features start x) (hy : ¬ p → Lexes features start y) :
    Lexes features start (if p then x else y) := by
  split
  · exact hx ‹_›
  · exact hy ‹_›

end Lexes

/-! ## Names -/

theorem eat_identifier_run_reads (n : Nat) {c stop : Cursor} (htext : IsText c.rest)
    (h : eat_identifier_run unicode features n c = .ok stop) : Reads features c stop := by
  induction n generalizing c with
  | zero =>
    cases h
    exact .refl _
  | succ n ih =>
    unfold eat_identifier_run at h
    cases hpeek : c.peek with
    | none =>
      rw [hpeek] at h
      cases h
      exact .refl _
    | some byte =>
      simp only [hpeek] at h
      split at h
      · -- an ASCII byte
        split at h
        · have hbump : Reads features c c.bump := .bump htext hpeek ‹_›
          exact hbump.trans (ih (hbump.isText htext) h)
        · cases h
          exact .refl _
      · -- a character outside of ASCII
        split at h
        · cases h
        · split at h
          · have hchar : Reads features c (c.advance_bytes _) := .char htext ‹_›
            exact hchar.trans (ih (hchar.isText htext) h)
          · cases h
            exact .refl _

theorem eat_identifier_continue_reads {c stop : Cursor} (htext : IsText c.rest)
    (h : eat_identifier_continue unicode features c = .ok stop) : Reads features c stop :=
  eat_identifier_run_reads c.rest.length htext h

theorem scan_word_lexes {start : Cursor} (htext : IsText start.rest) :
    Lexes features start (scan_word unicode features start) := by
  unfold scan_word
  cases hchar : start.char_at 0 with
  | none =>
    simp only [Cursor.bump_char, hchar, Option.map_none]
    exact .error
  | some c =>
    simp only [Cursor.bump_char, hchar, Option.map_some]
    have hfirst : Reads features start (start.advance_bytes c.utf8Size) := .char htext hchar
    refine .bind fun stop hstop => ?_
    have hrest := eat_identifier_continue_reads (hfirst.isText htext) hstop
    have hlt : start.pos < stop.pos := by
      have hsize := c.utf8Size_pos
      have hle := hrest.pos_le
      simp only [Cursor.advance_bytes] at hle
      omega
    cases interner.lookup_keyword (String.ofList (chars (start.text_until stop))) with
    | none => exact .emit (hfirst.trans hrest) hlt
    | some slot => exact .emit (hfirst.trans hrest) hlt

/-! ## Numbers -/

theorem eat_decimal_run_reads (separators strict prev : Bool) (pos : Nat)
    {rest : List SourceByte} (htext : IsText rest) :
    Reads features ⟨pos, rest⟩ (eat_decimal_run features separators strict prev pos rest) := by
  induction rest generalizing prev pos with
  | nil => exact .refl _
  | cons b rest ih =>
    have hrest := htext.of_suffix (List.suffix_cons b rest)
    unfold eat_decimal_run
    split
    · exact (Reads.bump_digit htext ‹_›).trans (ih true (pos + 1) hrest)
    split
    · have hunderscore : b.byte = ascii '_' := by grind
      exact (Reads.bump (c := ⟨pos, b :: rest⟩) htext rfl
        (by show b.byte < 0x80; rw [hunderscore]; decide)).trans
        (ih false (pos + 1) hrest)
    · exact .refl _

theorem eat_decimal_digits_reads {c : Cursor} (separators strict : Bool)
    (htext : IsText c.rest) :
    Reads features c (eat_decimal_digits features c separators strict) :=
  eat_decimal_run_reads separators strict false c.pos htext

theorem peek_of_beq {c : Cursor} {x : Char} (h : (c.peek == some (ascii x)) = true) :
    c.peek = some (ascii x) := by
  simpa using h

theorem peek_of_nth {c : Cursor} {n : Nat} {x : Char}
    (h : (c.peek_nth n == some (ascii x)) = true) : c.peek_nth n = some (ascii x) := by
  simpa using h

theorem eat_fixed_point_reads {c : Cursor} (separators strict : Bool) (htext : IsText c.rest) :
    Reads features c (eat_fixed_point features c separators strict) := by
  unfold eat_fixed_point
  have hdot {c : Cursor} (htext : IsText c.rest) (h : (c.peek == some (ascii '.')) = true) :
      Reads features c (eat_decimal_digits features c.bump separators strict) := by
    have hbump : Reads features c c.bump := .bump htext (peek_of_beq h) (by decide)
    exact hbump.trans (eat_decimal_digits_reads separators strict (hbump.isText htext))
  split
  · exact hdot htext ‹_›
  · have hdigits := @eat_decimal_digits_reads features _ separators strict htext
    dsimp only
    split
    · exact hdigits.trans (hdot (hdigits.isText htext) ‹_›)
    · exact hdigits

theorem Radix.is_digit_ascii {radix : Radix} {byte : UInt8} (h : radix.is_digit byte = true) :
    byte < 0x80 := by
  cases radix with
  | Hex =>
    simp only [Radix.is_digit, is_ascii_hexdigit, is_ascii_digit, Bool.or_eq_true,
      Bool.and_eq_true, decide_eq_true_eq] at h
    rcases h with (⟨-, h⟩ | ⟨-, h⟩) | ⟨-, h⟩
    · exact UInt8.lt_of_le_of_lt h (by decide)
    · exact UInt8.lt_of_le_of_lt h (by decide)
    · exact UInt8.lt_of_le_of_lt h (by decide)
  | Octal =>
    simp only [Radix.is_digit, Bool.and_eq_true, decide_eq_true_eq] at h
    exact UInt8.lt_of_le_of_lt h.2 (by decide)
  | Binary =>
    simp only [Radix.is_digit, Bool.or_eq_true, beq_iff_eq] at h
    rcases h with rfl | rfl
    · decide
    · decide

theorem eat_radix_run_reads (radix : Radix) (separators : Bool) (pos : Nat)
    {rest : List SourceByte} (htext : IsText rest) :
    Reads features ⟨pos, rest⟩ (eat_radix_run radix separators pos rest) := by
  induction rest generalizing pos with
  | nil => exact .refl _
  | cons b rest ih =>
    unfold eat_radix_run
    split
    · rename_i hb
      have hascii : b.byte < 0x80 := by
        rw [Bool.or_eq_true] at hb
        rcases hb with hb | hb
        · exact Radix.is_digit_ascii hb
        · have hunderscore : b.byte = ascii '_' := by grind
          rw [hunderscore]
          decide
      exact (Reads.bump (c := ⟨pos, b :: rest⟩) htext rfl hascii).trans
        (ih (pos + 1) (htext.of_suffix (List.suffix_cons b rest)))
    · exact .refl _

theorem is_sign_ascii {byte : UInt8} (h : is_sign byte = true) : byte < 0x80 := by
  simp only [is_sign, Bool.or_eq_true, beq_iff_eq] at h
  rcases h with rfl | rfl
  · decide
  · decide

theorem eat_exponent_reads {c : Cursor} (separators strict : Bool) (htext : IsText c.rest) :
    Reads features c (eat_exponent features c separators strict) := by
  unfold eat_exponent
  split
  · rename_i h
    have hbump : Reads features c c.bump := by
      rw [Bool.and_eq_true, Bool.or_eq_true] at h
      rcases h.1 with h | h
      · exact .bump htext (peek_of_beq h) (by decide)
      · exact .bump htext (peek_of_beq h) (by decide)
    dsimp only
    split
    · rename_i hsign
      obtain ⟨byte, hbyte, hsign⟩ := (Option.any_eq_true _ _).mp hsign
      have hbump' := hbump.trans (.bump (hbump.isText htext) hbyte (is_sign_ascii hsign))
      exact hbump'.trans (eat_decimal_digits_reads separators strict (hbump'.isText htext))
    · exact hbump.trans (eat_decimal_digits_reads separators strict (hbump.isText htext))
  · exact .refl c

theorem radix_prefix_some {c : Cursor} {radix : Radix} (h : radix_prefix features c = some radix) :
    c.peek = some (ascii '0') ∧ ∃ marker, c.peek_nth 1 = some marker ∧ marker < 0x80 := by
  unfold radix_prefix at h
  split at h
  · cases h
  · rename_i hzero
    refine ⟨by simpa using hzero, ?_⟩
    cases hmarker : c.peek_nth 1 with
    | none => simp [hmarker] at h
    | some marker =>
      refine ⟨marker, rfl, ?_⟩
      by_contra hhigh
      have hne (x : Char) (hx : ascii x < 0x80) : ¬ marker = ascii x := by
        rintro rfl
        exact hhigh hx
      simp [hmarker, hne 'x' (by decide), hne 'X' (by decide), hne 'o' (by decide),
        hne 'O' (by decide), hne 'b' (by decide), hne 'B' (by decide)] at h

theorem peek_bump {c : Cursor} {byte : UInt8} (h : c.peek = some byte) (n : Nat) :
    c.bump.peek_nth n = c.peek_nth (n + 1) := by
  obtain ⟨pos, rest⟩ := c
  cases rest with
  | nil => cases h
  | cons b rest => rfl

theorem eat_number_reads {c : Cursor} (htext : IsText c.rest) :
    Reads features c (eat_number features c) := by
  unfold eat_number
  cases hradix : radix_prefix features c with
  | some radix =>
    obtain ⟨hzero, marker, hmarker, hascii⟩ := radix_prefix_some hradix
    have hbump : Reads features c c.bump := .bump htext hzero (by decide)
    have hbump' := hbump.trans (.bump (hbump.isText htext)
      ((peek_bump hzero 0).trans hmarker) hascii)
    exact hbump'.trans (eat_radix_run_reads radix _ _ (hbump'.isText htext))
  | none =>
    have hfixed := @eat_fixed_point_reads features _
      features.numeric_literals.underscore_separators
      features.numeric_literals.reject_trailing_junk htext
    exact hfixed.trans (eat_exponent_reads _ _ (hfixed.isText htext))

/-- A number starts with a digit or a dot, and takes it. -/
theorem eat_fixed_point_lt {c : Cursor} {byte : UInt8} (separators strict : Bool)
    (htext : IsText c.rest) (hpeek : c.peek = some byte)
    (hbyte : is_digit features byte = true ∨ byte = ascii '.') :
    c.pos < (eat_fixed_point features c separators strict).pos := by
  unfold eat_fixed_point
  split
  · exact lt_of_bump hpeek
      (eat_decimal_digits_reads separators strict ((Moves.bump c).isText htext)).toMoves
  · rename_i hdot
    have hdigit : is_digit features byte = true := by
      rcases hbyte with hdigit | rfl
      · exact hdigit
      · simp [hpeek] at hdot
    have hrun : c.pos < (eat_decimal_digits features c separators strict).pos := by
      obtain ⟨b, rest, heq, rfl⟩ := peek_eq_some hpeek
      obtain ⟨pos, _⟩ := c
      subst heq
      simp only [eat_decimal_digits, eat_decimal_run, hdigit, if_true]
      have hle := (@eat_decimal_run_reads features separators strict true (pos + 1) _
        (htext.of_suffix (List.suffix_cons b rest))).pos_le
      simp only at hle
      omega
    have hdigits := @eat_decimal_digits_reads features _ separators strict htext
    dsimp only
    split
    · have hbump := Moves.bump (eat_decimal_digits features c separators strict)
      have hle := (hbump.trans (@eat_decimal_digits_reads features _ separators strict
        (hbump.isText (hdigits.isText htext))).toMoves).pos_le
      omega
    · exact hrun

theorem eat_number_lt {c : Cursor} {byte : UInt8} (htext : IsText c.rest)
    (hpeek : c.peek = some byte) (hbyte : is_digit features byte = true ∨ byte = ascii '.') :
    c.pos < (eat_number features c).pos := by
  unfold eat_number
  cases hradix : radix_prefix features c with
  | some radix =>
    have hbump := Moves.bump c
    have hbump' := Moves.bump c.bump
    have htext' := hbump'.isText (hbump.isText htext)
    exact lt_of_bump hpeek
      (hbump'.trans (@eat_radix_run_reads features radix _ _ _ htext').toMoves)
  | none =>
    have hlt := @eat_fixed_point_lt features _ _
      features.numeric_literals.underscore_separators
      features.numeric_literals.reject_trailing_junk htext hpeek hbyte
    have hfixed := @eat_fixed_point_reads features _
      features.numeric_literals.underscore_separators
      features.numeric_literals.reject_trailing_junk htext
    have hle := (@eat_exponent_reads features _
      features.numeric_literals.underscore_separators
      features.numeric_literals.reject_trailing_junk (hfixed.isText htext)).pos_le
    dsimp only
    omega

theorem scan_number_lexes {start : Cursor} {byte : UInt8} (htext : IsText start.rest)
    (hpeek : start.peek = some byte) (hbyte : is_digit features byte = true ∨ byte = ascii '.') :
    Lexes features start (scan_number unicode features start) := by
  unfold scan_number
  refine .ite (fun _ => .bind fun stop _ => .lex_error) fun _ => ?_
  exact .emit (eat_number_reads htext) (eat_number_lt htext hpeek hbyte)

theorem scan_money_lexes {start : Cursor} (htext : IsText start.rest)
    (hpeek : start.peek = some (ascii '$')) :
    Lexes features start (.ok (scan_money features start)) := by
  have hbump : Reads features start start.bump := .bump htext hpeek (by decide)
  have hfixed := @eat_fixed_point_reads features _ false false (hbump.isText htext)
  exact .emit (hbump.trans hfixed) (lt_of_bump hpeek hfixed.toMoves)

/-! ## Parameters, variables and references -/

theorem is_ascii_digit_ascii {byte : UInt8} (h : is_ascii_digit byte = true) : byte < 0x80 := by
  simp only [is_ascii_digit, Bool.and_eq_true, decide_eq_true_eq] at h
  exact UInt8.lt_of_le_of_lt h.2 (by decide)

theorem scan_parameter_lexes {start : Cursor} {byte : UInt8} (htext : IsText start.rest)
    (hpeek : start.peek = some byte) (hbyte : byte < 0x80) :
    Lexes features start (scan_parameter unicode features start) := by
  have hbump : Reads features start start.bump := .bump htext hpeek hbyte
  have hdigits : Reads features start.bump (start.bump.eat_while is_ascii_digit) :=
    .eat_ascii (hbump.isText htext) fun _ => is_ascii_digit_ascii
  have hname : Lexes features start (do
      let stop ← eat_identifier_continue unicode features start.bump
      return emit .Parameter start stop) := by
    refine .bind fun stop hstop => ?_
    have hrest := eat_identifier_continue_reads (hbump.isText htext) hstop
    exact .emit (hbump.trans hrest) (lt_of_bump hpeek hrest.toMoves)
  unfold scan_parameter
  refine .ite (fun _ => .ite (fun _ => ?_) fun _ => hname) fun _ =>
    .ite (fun _ => hname) fun _ => .ite (fun _ => ?_) fun _ => ?_
  · exact .emit (hbump.trans hdigits) (lt_of_bump hpeek hdigits.toMoves)
  · exact .emit (hbump.trans hdigits) (lt_of_bump hpeek hdigits.toMoves)
  · exact .emit hbump (lt_of_bump hpeek (.refl _))

theorem scan_positional_column_lexes {start : Cursor} {byte : UInt8} (htext : IsText start.rest)
    (hpeek : start.peek = some byte) (hbyte : byte < 0x80) :
    Lexes features start (.ok (scan_positional_column start)) := by
  have hbump : Reads features start start.bump := .bump htext hpeek hbyte
  have hdigits : Reads features start.bump (start.bump.eat_while is_ascii_digit) :=
    .eat_ascii (hbump.isText htext) fun _ => is_ascii_digit_ascii
  exact .emit (hbump.trans hdigits) (lt_of_bump hpeek hdigits.toMoves)

theorem eat_qualifiers_reads (n : Nat) {c stop : Cursor} (htext : IsText c.rest)
    (h : eat_qualifiers unicode features n c = .ok stop) : Reads features c stop := by
  induction n generalizing c with
  | zero =>
    cases h
    exact .refl _
  | succ n ih =>
    unfold eat_qualifiers at h
    split at h
    · rename_i hdot
      obtain ⟨next, hnext, hrest⟩ := bind_eq_ok.mp h
      have hbump : Reads features c c.bump :=
        .bump htext (peek_of_beq ((Bool.and_eq_true _ _).mp hdot).1) (by decide)
      have hname := hbump.trans (eat_identifier_continue_reads (hbump.isText htext) hnext)
      exact hname.trans (ih (hname.isText htext) hrest)
    · cases h
      exact .refl _

theorem not_is_path_byte_ascii {byte : UInt8} (h : is_path_byte byte = false) : byte < 0x80 := by
  have hpath : is_ascii_whitespace byte = true ∨ byte ∈ ",)(;=<>!".toList.map ascii := by
    simpa [is_path_byte, or_iff_not_imp_left] using h
  rcases hpath with hblank | hstop
  · simp only [is_ascii_whitespace, Bool.or_eq_true, beq_iff_eq] at hblank
    rcases hblank with (((rfl | rfl) | rfl) | rfl) | rfl <;> decide
  · have hascii : ((",)(;=<>!".toList.map ascii).all (· < 0x80)) = true := rfl
    exact of_decide_eq_true (List.all_eq_true.mp hascii byte hstop)

theorem eat_path_reads (n : Nat) {c : Cursor} (htext : IsText c.rest) :
    Reads features c (eat_path n c) := by
  induction n generalizing c with
  | zero => exact .refl c
  | succ n ih =>
    unfold eat_path
    split
    · have hbump : Reads features c c.bump := .bump htext (peek_of_beq ‹_›) (by decide)
      have hsegment := hbump.trans (.eat_all (hbump.isText htext) fun _ => not_is_path_byte_ascii)
      exact hsegment.trans (ih (hsegment.isText htext))
    · exact .refl c

theorem eat_stage_body_reads {c stop : Cursor} (htext : IsText c.rest)
    (h : eat_stage_body unicode features c = .ok stop) : Reads features c stop := by
  unfold eat_stage_body at h
  split at h
  · cases h
    exact .bump htext (peek_of_beq ‹_›) (by decide)
  split at h
  · have hbump : Reads features c c.bump := .bump htext (peek_of_beq ‹_›) (by decide)
    split at h
    · exact hbump.trans (eat_identifier_continue_reads (hbump.isText htext) h)
    · cases h
      exact hbump
  · obtain ⟨name, hname, hrest⟩ := bind_eq_ok.mp h
    have hreads := eat_identifier_continue_reads htext hname
    exact hreads.trans (eat_qualifiers_reads _ (hreads.isText htext) hrest)

theorem scan_stage_reference_lexes {start : Cursor} {byte : UInt8} (htext : IsText start.rest)
    (hpeek : start.peek = some byte) (hbyte : byte < 0x80) :
    Lexes features start (scan_stage_reference unicode features start) := by
  have hbump : Reads features start start.bump := .bump htext hpeek hbyte
  unfold scan_stage_reference
  refine .bind fun stop hstop => ?_
  have hbody := eat_stage_body_reads (hbump.isText htext) hstop
  have hpath := hbody.trans (eat_path_reads stop.rest.length
    (hbody.isText (hbump.isText htext)))
  exact .emit (hbump.trans hpath) (lt_of_bump hpeek hpath.toMoves)

theorem scan_session_variable_lexes {start : Cursor} {byte : UInt8} (htext : IsText start.rest)
    (hpeek : start.peek = some byte) (hbyte : byte < 0x80) :
    Lexes features start (scan_session_variable unicode features start) := by
  have hbump : Reads features start start.bump := .bump htext hpeek hbyte
  unfold scan_session_variable
  refine .ite (fun hat => .bind fun scope hscope => ?_) fun _ => .bind fun stop hstop => ?_
  · have hsigils := @Reads.bump features _ _ (hbump.isText htext) (peek_of_beq hat)
      (by decide)
    have hname := hsigils.trans (eat_identifier_continue_reads
      (hsigils.isText (hbump.isText htext)) hscope)
    refine .ite (fun hdot => .bind fun stop hstop => ?_) fun _ => ?_
    · have hscoped := hname.trans (.bump (hname.isText (hbump.isText htext))
        (peek_of_beq ((Bool.and_eq_true _ _).mp hdot).1) (by decide))
      have hall := hscoped.trans (eat_identifier_continue_reads
        (hscoped.isText (hbump.isText htext)) hstop)
      exact .emit (hbump.trans hall) (lt_of_bump hpeek hall.toMoves)
    · exact .emit (hbump.trans hname) (lt_of_bump hpeek hname.toMoves)
  · have hname := eat_identifier_continue_reads (hbump.isText htext) hstop
    exact .emit (hbump.trans hname) (lt_of_bump hpeek hname.toMoves)

/-! ## Quoted text -/

/-- The scan of a quoted lexeme that succeeds ends behind a closing delimiter. -/
theorem scan_quote_run_ok {scan : QuoteScan} {start body_start : Nat} {token : Token}
    {stop : Cursor} (pos : Nat) {rest : List SourceByte} (htext : IsText rest)
    (hclose : scan.close < 0x80)
    (h : scan_quote_run scan start body_start pos rest = .ok (token, stop)) :
    token = ⟨scan.kind, ⟨start, stop.pos⟩⟩ ∧ Moves ⟨pos, rest⟩ stop ∧
      pos < stop.pos ∧ whole stop.rest = true := by
  have hmoves {pos : Nat} {b b' : SourceByte} {rest : List SourceByte} :
      Moves ⟨pos, b :: b' :: rest⟩ ⟨pos + 2, rest⟩ :=
    (Moves.bump ⟨pos, b :: b' :: rest⟩).trans (.bump ⟨pos + 1, b' :: rest⟩)
  have hclosed {pos : Nat} {b : SourceByte} {rest : List SourceByte} (htext : IsText (b :: rest))
      (hb : (b.byte == scan.close) = true)
      (h : (⟨scan.kind, ⟨start, pos + 1⟩⟩, ⟨pos + 1, rest⟩) = (token, stop)) :
      token = ⟨scan.kind, ⟨start, stop.pos⟩⟩ ∧ Moves ⟨pos, b :: rest⟩ stop ∧
        pos < stop.pos ∧ whole stop.rest = true := by
    cases h
    rw [beq_iff_eq] at hb
    exact ⟨rfl, .bump ⟨pos, b :: rest⟩, Nat.lt_succ_self pos, (htext.ascii (hb ▸ hclose)).2⟩
  fun_induction scan_quote_run scan start body_start pos rest with
  | case1 pos => cases h
  | case2 pos b hb => cases h
  | case3 pos b hb b' rest ih =>
    obtain ⟨htoken, hrest, hlt, hwhole⟩ :=
      ih (htext.of_suffix ((List.suffix_cons b' rest).trans (List.suffix_cons b _))) h
    exact ⟨htoken, hmoves.trans hrest, by omega, hwhole⟩
  | case4 pos b hb hquote hzero => cases h
  | case5 pos b hb hquote hzero => exact hclosed htext hquote (by injection h)
  | case6 pos b hb hquote b' rest hdoubled ih =>
    obtain ⟨htoken, hrest, hlt, hwhole⟩ :=
      ih (htext.of_suffix ((List.suffix_cons b' rest).trans (List.suffix_cons b _))) h
    exact ⟨htoken, hmoves.trans hrest, by omega, hwhole⟩
  | case7 pos b hb hquote b' rest hdoubled hzero => cases h
  | case8 pos b hb hquote b' rest hdoubled hzero => exact hclosed htext hquote (by injection h)
  | case9 pos b rest hb hquote ih =>
    obtain ⟨htoken, hrest, hlt, hwhole⟩ := ih (htext.of_suffix (List.suffix_cons b rest)) h
    exact ⟨htoken, (Moves.bump ⟨pos, b :: rest⟩).trans hrest, by omega, hwhole⟩

theorem scan_quoted_body_ok {cursor stop : Cursor} {start : Nat} {scan : QuoteScan}
    {token : Token} (htext : IsText cursor.rest) (hclose : scan.close < 0x80)
    (h : scan_quoted_body cursor start scan = .ok (token, stop)) :
    token = ⟨scan.kind, ⟨start, stop.pos⟩⟩ ∧ Moves cursor stop ∧ cursor.pos < stop.pos ∧
      whole stop.rest = true := by
  have hbump := Moves.bump cursor
  obtain ⟨htoken, hmoves, hlt, hwhole⟩ :=
    scan_quote_run_ok cursor.bump.pos (hbump.isText htext) hclose h
  exact ⟨htoken, hbump.trans hmoves, lt_of_le_of_lt hbump.pos_le hlt, hwhole⟩

theorem continuation_close_ascii {scan : QuoteScan} {c : Cursor} {close : UInt8}
    (h : continuation_close scan c = some close) : close < 0x80 := by
  unfold continuation_close at h
  split at h
  · cases h
    decide
  split at h
  · cases h
    decide
  · cases h

/-- A string with the segments that continue it starts where it did without them. -/
theorem extend_string_run_ok {scan : QuoteScan} (n : Nat) {continued continued' : Bool}
    {token token' : Token} {cursor stop : Cursor} (htext : IsText cursor.rest)
    (hspan : token.span.stop = cursor.pos) (hwhole : whole cursor.rest = true)
    (h : extend_string_run scan n continued (token, cursor) = .ok ((token', continued'), stop)) :
    token'.span = ⟨token.span.start, stop.pos⟩ ∧ Moves cursor stop ∧ whole stop.rest = true := by
  induction n generalizing continued token cursor with
  | zero =>
    cases h
    exact ⟨by rw [← hspan], .refl _, hwhole⟩
  | succ n ih =>
    unfold extend_string_run at h
    simp only at h
    split at h
    · rename_i close hclose
      split at h
      · obtain ⟨⟨segment, next⟩, hsegment, hrest⟩ := bind_eq_ok.mp h
        have hgap := Moves.eat_while cursor fun byte => escape.is_gap ⟨byte, none⟩
        obtain ⟨rfl, hmoves, -, hnext⟩ :=
          scan_quoted_body_ok (hgap.isText htext) (continuation_close_ascii hclose) hsegment
        have hmoves := hgap.trans hmoves
        obtain ⟨hspan', hmoves', hstop⟩ := ih (hmoves.isText htext) rfl hnext hrest
        exact ⟨hspan', hmoves.trans hmoves', hstop⟩
      · cases h
        exact ⟨by rw [← hspan], .refl _, hwhole⟩
    · cases h
      exact ⟨by rw [← hspan], .refl _, hwhole⟩

/-- A lexeme that begins `n` bytes in front of its opening delimiter. -/
theorem lexes_of_quoted {start stop : Cursor} {token : Token} {n : Nat}
    (hn : n ≤ start.rest.length) (hspan : token.span = ⟨start.pos, stop.pos⟩)
    (hmoves : Moves (start.advance_bytes n) stop)
    (hlt : (start.advance_bytes n).pos < stop.pos) (hwhole : whole stop.rest = true) :
    token.span = ⟨start.pos, stop.pos⟩ ∧ start.pos < stop.pos ∧ Reads features start stop := by
  have hprefix := Moves.advance_bytes hn
  exact ⟨hspan, lt_of_le_of_lt hprefix.pos_le hlt, hprefix.trans hmoves, fun _ _ => hwhole⟩

theorem scan_quoted_lexes {start : Cursor} {scan : QuoteScan} (htext : IsText start.rest)
    (hclose : scan.close < 0x80) : Lexes features start (scan_quoted start scan) := by
  unfold scan_quoted
  refine .bind fun scanned hbody => ?_
  obtain ⟨token, stop⟩ := scanned
  obtain ⟨rfl, hmoves, hlt, hwhole⟩ := scan_quoted_body_ok htext hclose hbody
  have hzero : start.advance_bytes 0 = start := rfl
  refine .ite (fun _ => .bind fun scanned hextend => ?_) fun _ => ?_
  · obtain ⟨⟨token', continued⟩, stop'⟩ := scanned
    obtain ⟨hspan, hmoves', hwhole'⟩ :=
      extend_string_run_ok _ (hmoves.isText htext) rfl hwhole hextend
    rintro token'' stop'' hok
    cases hok
    exact lexes_of_quoted (Nat.zero_le _) hspan (hmoves.trans hmoves')
      (lt_of_lt_of_le hlt hmoves'.pos_le) hwhole'
  · rintro token' stop' hok
    cases hok
    exact lexes_of_quoted (Nat.zero_le _) rfl hmoves hlt hwhole

/-- What a string behind a marker is. -/
theorem scan_prefixed_string_ok {start stop : Cursor} {n : Nat} {close : UInt8}
    {backslash continued : Bool} {token : Token} (htext : IsText start.rest)
    (hn : n ≤ start.rest.length) (hclose : close < 0x80)
    (h : scan_prefixed_string start n close backslash = .ok ((token, continued), stop)) :
    token.span = ⟨start.pos, stop.pos⟩ ∧ start.pos < stop.pos ∧ Reads features start stop := by
  unfold scan_prefixed_string at h
  obtain ⟨⟨body, stop'⟩, hbody, hrest⟩ := bind_eq_ok.mp h
  obtain ⟨rfl, hmoves, hlt, hwhole⟩ :=
    scan_quoted_body_ok ((Moves.advance_bytes hn).isText htext) hclose hbody
  simp only at hrest
  split at hrest
  · obtain ⟨hspan, hmoves', hwhole'⟩ :=
      extend_string_run_ok _ (hmoves.isText ((Moves.advance_bytes hn).isText htext)) rfl hwhole
        hrest
    exact lexes_of_quoted hn hspan (hmoves.trans hmoves') (lt_of_lt_of_le hlt hmoves'.pos_le)
      hwhole'
  · cases hrest
    exact lexes_of_quoted hn rfl hmoves hlt hwhole

theorem scan_marked_string_lexes {start : Cursor} {n : Nat} {close : UInt8} {backslash : Bool}
    (htext : IsText start.rest) (hn : n ≤ start.rest.length) (hclose : close < 0x80) :
    Lexes features start (scan_marked_string start n close backslash) := by
  unfold scan_marked_string
  refine .bind fun scanned hscanned => ?_
  obtain ⟨⟨token, continued⟩, stop⟩ := scanned
  rintro token' stop' hok
  cases hok
  exact scan_prefixed_string_ok htext hn hclose hscanned

theorem scan_escape_string_lexes {start : Cursor} (htext : IsText start.rest)
    (hn : 1 ≤ start.rest.length) : Lexes features start (scan_escape_string start) := by
  unfold scan_escape_string
  refine .bind fun scanned hscanned => ?_
  obtain ⟨⟨token, continued⟩, stop⟩ := scanned
  refine .ite (fun _ => ?_) fun _ => .error
  rintro token' stop' hok
  cases hok
  exact scan_prefixed_string_ok htext hn (by decide) hscanned

theorem scan_unicode_ident_lexes {start : Cursor} (htext : IsText start.rest)
    (hn : 2 ≤ start.rest.length) : Lexes features start (scan_unicode_ident features start) := by
  rintro token stop hok
  obtain ⟨rfl, hmoves, hlt, hwhole⟩ :=
    scan_quoted_body_ok ((Moves.advance_bytes hn).isText htext)
      (show ascii '"' < 0x80 by decide) hok
  exact lexes_of_quoted hn rfl hmoves hlt hwhole

theorem scan_hex_blob_lexes {start : Cursor} (htext : IsText start.rest)
    (hn : 2 ≤ start.rest.length) : Lexes features start (scan_hex_blob start) := by
  unfold scan_hex_blob
  dsimp only
  have hprefix := Moves.advance_bytes hn
  have hdigits := hprefix.trans
    (.eat_while (start.advance_bytes 2) fun byte => is_ascii_hexdigit byte)
  refine .ite (fun hclosed => ?_) fun _ => .ite (fun _ => .lex_error) fun _ => .lex_error
  have hpeek := peek_of_beq ((Bool.and_eq_true _ _).mp hclosed).2
  refine .emit (.behind_ascii htext hdigits hpeek (by decide)) ?_
  rw [bump_pos hpeek]
  exact Nat.lt_succ_of_le hdigits.pos_le

/-- Behind bytes that end with an ASCII one a character begins. -/
theorem whole_drop {rest : List SourceByte} {n : Nat} {b : SourceByte} (htext : IsText rest)
    (hn : rest[n]? = some b) (hb : b.byte < 0x80) : whole (rest.drop (n + 1)) = true := by
  obtain ⟨hlt, rfl⟩ := List.getElem?_eq_some_iff.mp hn
  have hdrop := List.drop_eq_getElem_cons hlt
  have hrest := htext.of_suffix (List.drop_suffix n rest)
  rw [hdrop] at hrest
  exact (hrest.ascii hb).2

theorem advance_ok {c : Cursor} {n : Nat} {byte : UInt8} (htext : IsText c.rest)
    (hn : c.peek_nth n = some byte) (hbyte : byte < 0x80) :
    Moves c (c.advance_bytes (n + 1)) ∧ whole (c.advance_bytes (n + 1)).rest = true := by
  obtain ⟨b, hb, rfl⟩ := Option.map_eq_some_iff.mp hn
  have hlt := (List.getElem?_eq_some_iff.mp hb).1
  exact ⟨.advance_bytes hlt, whole_drop htext hb hbyte⟩

theorem advance_reads {c : Cursor} {n : Nat} {byte : UInt8} (htext : IsText c.rest)
    (hn : c.peek_nth n = some byte) (hbyte : byte < 0x80) :
    Reads features c (c.advance_bytes (n + 1)) := by
  obtain ⟨hmoves, hwhole⟩ := advance_ok htext hn hbyte
  exact ⟨hmoves, fun _ _ => hwhole⟩

/-- Bytes that are no dollar signs are skipped. -/
theorem scan_dollar_run_skip {tag : List UInt8} {start : Nat} (pos : Nat)
    {front rest : List SourceByte} (hfront : ∀ b ∈ front, b.byte ≠ ascii '$') :
    scan_dollar_run (ascii '$' :: tag) start pos (front ++ rest) =
      scan_dollar_run (ascii '$' :: tag) start (pos + front.length) rest := by
  induction front generalizing pos with
  | nil => rfl
  | cons b front ih =>
    have hb : (ascii '$' == b.byte) = false := by simpa using (hfront b (.head _)).symm
    rw [List.cons_append, scan_dollar_run, List.map_cons, List.isPrefixOf_cons_cons, hb,
      Bool.false_and, if_neg Bool.false_ne_true, ih _ fun d hd => hfront d (.tail _ hd),
      List.length_cons]
    congr 1
    omega

/-- Going from dollar sign to dollar sign misses no delimiter. -/
theorem scan_dollar_body_eq {tag : List UInt8} {start : Nat} (n : Nat) (cursor : Cursor)
    (hn : cursor.rest.length < n) :
    scan_dollar_body (ascii '$' :: tag) start n cursor =
      scan_dollar_run (ascii '$' :: tag) start cursor.pos cursor.rest := by
  induction n generalizing cursor with
  | zero => exact absurd hn (Nat.not_lt_zero _)
  | succ n ih =>
    rw [scan_dollar_body]
    cases hfind : cursor.rest.findIdx? (·.byte == ascii '$') with
    | none =>
      have hskip := @scan_dollar_run_skip tag start cursor.pos cursor.rest []
        (by simpa using List.findIdx?_eq_none_iff.mp hfind)
      rw [List.append_nil] at hskip
      rw [hskip]
      rfl
    | some offset =>
      obtain ⟨hlt, hdollar, hbefore⟩ := List.findIdx?_eq_some_iff_getElem.mp hfind
      have hfront : ∀ b ∈ cursor.rest.take offset, b.byte ≠ ascii '$' := by
        intro b hb
        obtain ⟨i, hi, rfl⟩ := List.getElem_of_mem hb
        rw [List.length_take] at hi
        simpa using hbefore i (by omega)
      have hskip := @scan_dollar_run_skip tag start cursor.pos _ (cursor.rest.drop offset) hfront
      rw [List.take_append_drop, List.length_take, Nat.min_eq_left hlt.le] at hskip
      rw [hskip]
      have hcandidate : cursor.rest.drop offset =
          cursor.rest[offset] :: cursor.rest.drop (offset + 1) := List.drop_eq_getElem_cons hlt
      dsimp only [Cursor.advance_bytes]
      rw [hcandidate, scan_dollar_run]
      split
      · rfl
      · rw [ih]
        · rfl
        · simp only [Cursor.bump, List.length_drop]
          omega

theorem scan_dollar_quote_eq {cursor : Cursor} (hpeek : cursor.peek = some (ascii '$')) :
    scan_dollar_quote features cursor =
      let tag := dollar_tag_len features (cursor.rest.drop 1)
      if cursor.peek_nth (tag + 1) == some (ascii '$') then
        let delim := (cursor.rest.take (tag + 2)).map (·.byte)
        let body := cursor.advance_bytes delim.length
        scan_dollar_run delim cursor.pos body.pos body.rest
      else lex_error .StrayByte cursor.pos (cursor.pos + 1) := by
  have hhead (n : Nat) : (cursor.rest.take (n + 1)).map (·.byte) =
      ascii '$' :: ((cursor.rest.drop 1).take n).map (·.byte) := by
    cases hrest : cursor.rest with
    | nil => simp [Cursor.peek, Cursor.peek_nth, hrest] at hpeek
    | cons d rest =>
      have hbyte : d.byte = ascii '$' := by simpa [Cursor.peek, Cursor.peek_nth, hrest] using hpeek
      simp [hbyte]
  unfold scan_dollar_quote
  dsimp only
  rw [hhead, scan_dollar_body_eq _ _ (Nat.lt_succ_self _)]

/-- A dollar-quoted string ends behind its delimiter. -/
theorem scan_dollar_run_ok {delim : List UInt8} {start : Nat} {token : Token} {stop : Cursor}
    (pos : Nat) {rest : List SourceByte} (htext : IsText rest)
    (hdelim : ∃ front, delim = front ++ [ascii '$'])
    (h : scan_dollar_run delim start pos rest = .ok (token, stop)) :
    token = ⟨.String, ⟨start, stop.pos⟩⟩ ∧ Moves ⟨pos, rest⟩ stop ∧ pos < stop.pos ∧
      whole stop.rest = true := by
  induction rest generalizing pos with
  | nil => cases h
  | cons b rest ih =>
    unfold scan_dollar_run at h
    split at h
    · rename_i hprefix
      cases h
      obtain ⟨behind, hbehind⟩ := List.isPrefixOf_iff_prefix.mp hprefix
      obtain ⟨front, rfl⟩ := hdelim
      have hlength : (front ++ [ascii '$']).length ≤ (b :: rest).length := by
        have := congrArg List.length hbehind
        simp only [List.length_append, List.length_map] at this ⊢
        omega
      have hlast : (b :: rest)[front.length]?.map (·.byte) = some (ascii '$') := by
        rw [← List.getElem?_map, ← hbehind]
        simp
      obtain ⟨d, hd, hbyte⟩ := Option.map_eq_some_iff.mp hlast
      refine ⟨rfl, @Moves.advance_bytes ⟨pos, b :: rest⟩ _ hlength, by simp, ?_⟩
      have hwhole := whole_drop htext hd (by rw [hbyte]; decide)
      simpa using hwhole
    · obtain ⟨htoken, hmoves, hlt, hwhole⟩ :=
        ih (pos + 1) (htext.of_suffix (List.suffix_cons b rest)) h
      exact ⟨htoken, (Moves.bump ⟨pos, b :: rest⟩).trans hmoves, by omega, hwhole⟩

theorem scan_dollar_quote_lexes {start : Cursor} (htext : IsText start.rest)
    (hpeek : start.peek = some (ascii '$')) :
    Lexes features start (scan_dollar_quote features start) := by
  rw [scan_dollar_quote_eq hpeek]
  dsimp only
  refine .ite (fun hclosed => ?_) fun _ => .lex_error
  generalize dollar_tag_len features (start.rest.drop 1) = tag at hclosed ⊢
  obtain ⟨d, hd, hbyte⟩ := Option.map_eq_some_iff.mp (peek_of_nth hclosed)
  have hlt := (List.getElem?_eq_some_iff.mp hd).1
  have hdelim : ∃ front, (start.rest.take (tag + 2)).map (·.byte) = front ++ [ascii '$'] := by
    refine ⟨(start.rest.take (tag + 1)).map (·.byte), ?_⟩
    rw [List.take_add_one, hd]
    simp [hbyte]
  have hlength : ((start.rest.take (tag + 2)).map (·.byte)).length = tag + 2 := by
    simp only [List.length_map, List.length_take]
    omega
  have hopening : Moves start (start.advance_bytes (tag + 2)) := .advance_bytes hlt
  rintro token stop hok
  rw [hlength] at hok
  obtain ⟨rfl, hmoves, hpos, hwhole⟩ :=
    scan_dollar_run_ok _ (hopening.isText htext) hdelim hok
  exact lexes_of_quoted hlt rfl hmoves hpos hwhole

/-! ## Operators and punctuation -/

/-- The bytes an operator takes behind its first one are ASCII. -/
def Width (c : Cursor) (width : Nat) : Prop :=
  0 < width ∧ ∀ n, 0 < n → n < width → ∃ byte, c.peek_nth n = some byte ∧ byte < 0x80

theorem scan_operator_lexes_of_width {start : Cursor} {byte : UInt8} {op : tokenizer.Operator}
    {width : Nat} (htext : IsText start.rest) (hpeek : start.peek = some byte)
    (hbyte : byte < 0x80) (hwidth : Width start width) :
    Lexes features start (.ok (emit (.Operator op) start (start.advance_bytes width))) := by
  obtain ⟨hpos, hbytes⟩ := hwidth
  have hlast : ∃ byte, start.peek_nth (width - 1) = some byte ∧ byte < 0x80 := by
    obtain hone | hmore := Nat.eq_or_lt_of_le hpos
    · exact ⟨byte, by rw [← hone]; exact hpeek, hbyte⟩
    · exact hbytes (width - 1) (by omega) (by omega)
  obtain ⟨last, hlast, hascii⟩ := hlast
  have hreads := @advance_reads features _ _ _ htext hlast hascii
  rw [Nat.sub_add_cancel hpos] at hreads
  refine .emit hreads ?_
  simp only [Cursor.advance_bytes]
  omega

theorem width_one (c : Cursor) : Width c 1 := ⟨by decide, by omega⟩

theorem width_two {c : Cursor} {x : UInt8} (h : c.peek_nth 1 = some x) (hx : x < 0x80) :
    Width c 2 := by
  refine ⟨by decide, fun n hpos hlt => ?_⟩
  obtain rfl : n = 1 := by omega
  exact ⟨x, h, hx⟩

theorem width_three {c : Cursor} {x y : UInt8} (h : c.peek_nth 1 = some x)
    (h' : c.peek_nth 2 = some y) (hx : x < 0x80) (hy : y < 0x80) : Width c 3 := by
  refine ⟨by decide, fun n hpos hlt => ?_⟩
  obtain rfl | rfl : n = 1 ∨ n = 2 := by omega
  · exact ⟨x, h, hx⟩
  · exact ⟨y, h', hy⟩

theorem fixed_operator_width {c : Cursor} {op : tokenizer.Operator} {width : Nat}
    (h : fixed_operator features c = some (op, width)) : Width c width := by
  unfold fixed_operator at h
  simp only [Bool.and_eq_true, beq_iff_eq] at h
  split at h <;> (repeat' split at h) <;>
    first
    | (obtain ⟨-, rfl⟩ := Prod.mk.inj (Option.some.inj h)
       first
       | exact width_one c
       | exact width_two ‹c.peek_nth 1 = some _› (by decide)
       | exact width_two (And.right ‹_ ∧ c.peek_nth 1 = some _›) (by decide)
       | exact width_three (And.right ‹_ ∧ c.peek_nth 1 = some _›) ‹c.peek_nth 2 = some _›
          (by decide) (by decide)
       | exact width_three ‹c.peek_nth 1 = some _› (And.right ‹_ ∧ c.peek_nth 2 = some _›)
          (by decide) (by decide))
    | cases h

theorem operator_char_of_mem {cs : List Char} {c : Char} (h : c ∈ operator_run features cs) :
    is_operator_char features c = true := by
  induction cs with
  | nil => cases h
  | cons c' cs ih =>
    unfold operator_run at h
    split at h
    · rename_i hop
      cases h with
      | head => exact ((Bool.and_eq_true _ _).mp hop).1
      | tail _ h => exact ih h
    · cases h

theorem is_operator_char_ascii {c : Char} (h : is_operator_char features c = true) :
    c.toNat < 0x80 := by
  unfold is_operator_char at h
  split at h
  · simp_all
  split at h
  · simp_all
  · have hall : ("~!@^&|`+-*/%<>=".toList.all fun c => c.toNat < 0x80) = true := rfl
    exact of_decide_eq_true (List.all_eq_true.mp hall c (by simpa using h))

/-- The run of an operator is its first character and operator characters behind it. -/
theorem custom_operator_run_eq (lead : Char) (cs : List Char) :
    ∃ run, custom_operator_run features lead cs = lead :: run ∧ run <+: cs ∧
      ∀ c ∈ run, c.toNat < 0x80 := by
  have hascii : ∀ c ∈ operator_run features cs, c.toNat < 0x80 :=
    fun c hc => is_operator_char_ascii (operator_char_of_mem hc)
  unfold custom_operator_run
  dsimp only
  split
  · exact ⟨_, rfl, operator_run_start cs, hascii⟩
  · have hrun := List.rdropWhile_prefix is_sign_char (operator_run features cs)
    exact ⟨_, rfl, hrun.trans (operator_run_start cs), fun c hc => hascii c (hrun.subset hc)⟩

theorem ascii_char_lt {b : SourceByte} (h : (ascii_char b).toNat < 0x80) : b.byte < 0x80 := by
  have hlt := b.byte.toNat_lt
  have hchar : (ascii_char b).toNat = b.byte.toNat := by
    have hvalid : b.byte.toNat.isValidChar := .inl (by omega)
    unfold ascii_char Char.ofNat
    rw [dif_pos hvalid]
    rfl
  rw [UInt8.lt_iff_toNat_lt]
  rw [hchar] at h
  exact h

theorem custom_operator_width {c : Cursor} {op : tokenizer.Operator} {width : Nat}
    (h : custom_operator features c = some (op, width)) : Width c width := by
  unfold custom_operator at h
  cases hrest : c.rest with
  | nil => simp [hrest] at h
  | cons b rest =>
    simp only [hrest, List.map_cons] at h
    obtain ⟨run, hrun, hprefix, hascii⟩ :=
      @custom_operator_run_eq features (ascii_char b) (rest.map ascii_char)
    have hwidth : Width c (run.length + 1) := by
      refine ⟨Nat.succ_pos _, fun n hpos hlt => ?_⟩
      obtain ⟨m, rfl⟩ : ∃ m, n = m + 1 := ⟨n - 1, by omega⟩
      have hm : m < run.length := by omega
      obtain ⟨behind, hbehind⟩ := hprefix
      have hget : rest[m]?.map ascii_char = some run[m] := by
        rw [← List.getElem?_map, ← hbehind, List.getElem?_append_left hm, List.getElem?_eq_getElem hm]
      obtain ⟨d, hd, hchar⟩ := Option.map_eq_some_iff.mp hget
      refine ⟨d.byte, ?_, ascii_char_lt (by rw [hchar]; exact hascii _ (List.getElem_mem hm))⟩
      simp [Cursor.peek_nth, hrest, hd]
    rw [hrun] at h
    split at h
    · cases h
      exact hwidth
    split at h
    · cases h
      exact width_one c
    · cases h
      exact hwidth

theorem scan_operator_lexes {start : Cursor} {byte : UInt8} (htext : IsText start.rest)
    (hpeek : start.peek = some byte) (hbyte : byte < 0x80) :
    Lexes features start (scan_operator features start) := by
  unfold scan_operator
  split
  · rename_i op width hop
    refine scan_operator_lexes_of_width htext hpeek hbyte ?_
    cases hcustom : features.operator_syntax.custom_operators with
    | true =>
      rw [hcustom, cond_true] at hop
      exact custom_operator_width hop
    | false =>
      rw [hcustom, cond_false] at hop
      exact fixed_operator_width hop
  · exact .error

theorem scan_punctuation_lexes {start : Cursor} {byte : UInt8} (htext : IsText start.rest)
    (hpeek : start.peek = some byte) (hbyte : byte < 0x80) :
    Lexes features start (scan_punctuation features start) := by
  have hbump : Reads features start start.bump := .bump htext hpeek hbyte
  have hpair {x : Char} (hx : ascii x < 0x80) (h : (start.peek_nth 1 == some (ascii x)) = true)
      (kind : TokenKind) : Lexes features start (.ok (emit kind start start.bump.bump)) := by
    have hnext : Reads features start.bump start.bump.bump :=
      .bump (hbump.isText htext) ((peek_bump hpeek 0).trans (peek_of_nth h)) hx
    exact .emit (hbump.trans hnext) (lt_of_bump hpeek hnext.toMoves)
  unfold scan_punctuation
  dsimp only
  refine .ite (fun h => hpair (by decide) ((Bool.and_eq_true _ _).mp h).2 _) fun _ =>
    .ite (fun h => hpair (by decide) ((Bool.and_eq_true _ _).mp h).2 _) fun _ => ?_
  cases start.rest.head?.bind punctuation_of with
  | none => exact .error
  | some punct => exact .emit hbump (lt_of_bump hpeek (.refl _))

end squonk.tokenizer.scan
