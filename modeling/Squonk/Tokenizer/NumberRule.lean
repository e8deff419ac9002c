import Mathlib
import Squonk.Ast.Literal.NumberSplit
import Squonk.Tokenizer.Contention
import Squonk.Tokenizer.NumberScan

/-!
# The rule of numbers

The number token is the longest number of the grammar where it starts, it is refused where a name
goes on behind it and the dialect says so, and its literal has the kind of the number.
-/

open squonk.dialect squonk.dialect.lex_class squonk.ast.literal

namespace squonk.tokenizer.scan

variable {features : FeatureSet}

/-! ## The characters of a number -/

/-- The characters of numbers that no marker of a radix opens. -/
def DecimalChar (c : Char) : Prop := c.isDigit = true ∨ c ∈ ['_', '.', 'e', 'E', '+', '-']

theorem DigitTail.mem {digit : Char → Bool} {separators : Bool} {tail : List Char}
    (h : DigitTail digit separators tail) {c : Char} (hc : c ∈ tail) : digit c = true ∨ c = '_' := by
  induction h with
  | nil => cases hc
  | digit hdigit _ ih =>
    obtain rfl | hc := List.mem_cons.mp hc
    · exact .inl hdigit
    · exact ih hc
  | separator _ hdigit _ ih =>
    obtain rfl | hc := List.mem_cons.mp hc
    · exact .inr rfl
    · obtain rfl | hc := List.mem_cons.mp hc
      · exact .inl hdigit
      · exact ih hc

theorem Fraction.mem {fraction : List Char} (h : Fraction features fraction) {c : Char}
    (hc : c ∈ fraction) : c.isDigit = true ∨ c = '_' := by
  obtain rfl | h | ⟨-, -, tail, rfl, h⟩ := h
  · cases hc
  · exact (DigitRun.tail h).mem hc
  · obtain rfl | hc := List.mem_cons.mp hc
    · exact .inr rfl
    · exact (DigitRun.tail h).mem hc

theorem decimalChar_of_run {c : Char} (h : c.isDigit = true ∨ c = '_') : DecimalChar c := by
  obtain h | rfl := h
  · exact .inl h
  · exact .inr (by decide)

/-- A mantissa is of digits, separators and a point, and only one with a point is fractional. -/
theorem Mantissa.chars {shape : NumberShape} {mantissa : List Char}
    (h : Mantissa features shape mantissa) :
    (∀ c ∈ mantissa, DecimalChar c) ∧
      (∃ c tail, mantissa = c :: tail ∧ (c.isDigit = true ∨ c = '.')) ∧
      (shape = .Integer ∧ (∀ c ∈ mantissa, c.isDigit = true ∨ c = '_') ∨
        shape = .Fractional ∧ '.' ∈ mantissa) := by
  cases h with
  | whole h =>
    have hmem (c : Char) (hc : c ∈ mantissa) : c.isDigit = true ∨ c = '_' :=
      (DigitRun.tail h).mem hc
    refine ⟨fun c hc => decimalChar_of_run (hmem c hc), ?_, .inl ⟨rfl, hmem⟩⟩
    obtain ⟨d, tail, rfl, hd, -⟩ := h
    exact ⟨d, tail, rfl, .inl hd⟩
  | @point whole fraction hwhole hfraction =>
    refine ⟨fun c hc => ?_, ?_, .inr ⟨rfl, by simp⟩⟩
    · simp only [List.mem_append, List.mem_cons] at hc
      obtain hc | rfl | hc := hc
      · exact decimalChar_of_run ((DigitRun.tail hwhole).mem hc)
      · exact .inr (by decide)
      · exact decimalChar_of_run (hfraction.mem hc)
    · obtain ⟨d, tail, rfl, hd, -⟩ := hwhole
      exact ⟨d, tail ++ '.' :: fraction, rfl, .inl hd⟩
  | @leading_point run h =>
    refine ⟨fun c hc => ?_, ⟨'.', run, rfl, .inr rfl⟩, .inr ⟨rfl, by simp⟩⟩
    obtain rfl | hc := List.mem_cons.mp hc
    · exact .inr (by decide)
    · exact decimalChar_of_run ((DigitRun.tail h).mem hc)

theorem Exponent.chars {exponent : List Char} (h : Exponent features exponent) :
    (∀ c ∈ exponent, DecimalChar c) ∧ ∃ c ∈ exponent, c ∈ ['e', 'E'] := by
  obtain ⟨marker, sign, run, rfl, hmarker, hsign, hrun⟩ := h
  refine ⟨fun c hc => ?_, marker, by simp, hmarker⟩
  simp only [List.mem_cons, List.mem_append, List.not_mem_nil, or_false] at hc hmarker hsign
  obtain rfl | hc | hc := hc
  · obtain rfl | rfl := hmarker <;> exact .inr (by decide)
  · obtain rfl | rfl | rfl := hsign
    · cases hc
    · obtain rfl := List.mem_singleton.mp hc
      exact .inr (by decide)
    · obtain rfl := List.mem_singleton.mp hc
      exact .inr (by decide)
  · exact decimalChar_of_run ((DigitRun.tail hrun).mem hc)

theorem lt_of_isDigit {c : Char} (h : c.isDigit = true) : c.toNat < 0x80 := by
  simp only [Char.isDigit, Bool.and_eq_true, decide_eq_true_eq, UInt32.le_iff_toNat_le] at h
  exact Nat.lt_of_le_of_lt h.2 (by decide)

theorem DecimalChar.lt {c : Char} (h : DecimalChar c) : c.toNat < 0x80 := by
  obtain h | h := h
  · exact lt_of_isDigit h
  · simp only [List.mem_cons, List.not_mem_nil, or_false] at h
    obtain rfl | rfl | rfl | rfl | rfl | rfl := h <;> decide

theorem lt_of_radix_digit {radix : Radix} {c : Char} (h : radix_digit radix c = true) :
    c.toNat < 0x80 := by
  have hbase : ∃ base, is_radix_digit c base = true := by
    cases radix
    · exact ⟨16, h⟩
    · exact ⟨8, h⟩
    · exact ⟨2, h⟩
  obtain ⟨base, hbase⟩ := hbase
  have hc := isAlphanum_of_radix_digit hbase
  simp only [Char.isAlphanum, Char.isAlpha, Char.isUpper, Char.isLower, Char.isDigit,
    Bool.or_eq_true, Bool.and_eq_true, decide_eq_true_eq, UInt32.le_iff_toNat_le] at hc
  have hval : c.val.toNat = c.toNat := rfl
  have hupper : 'Z'.val.toNat = 90 := rfl
  have hlower : 'z'.val.toNat = 122 := rfl
  have hnine : '9'.val.toNat = 57 := rfl
  omega

/-- A number is ASCII. -/
theorem IsNumber.lt {shape : NumberShape} {number : List Char} (h : IsNumber features shape number)
    {c : Char} (hc : c ∈ number) : c.toNat < 0x80 := by
  cases h with
  | @radix radix marker body _ hmarker hbody =>
    simp only [List.mem_cons] at hc
    obtain rfl | rfl | hc := hc
    · decide
    · cases radix <;>
        simp only [radix_markers, List.mem_cons, List.not_mem_nil, or_false] at hmarker <;>
        obtain rfl | rfl := hmarker <;> decide
    · obtain h | rfl := hbody.tail.mem hc
      · exact lt_of_radix_digit h
      · decide
  | decimal h => exact (h.chars.1 c hc).lt
  | scientific h hexponent =>
    obtain hc | hc := List.mem_append.mp hc
    · exact (h.chars.1 c hc).lt
    · exact (hexponent.chars.1 c hc).lt

/-! ## The kind of a number -/

/-- Where no marker of a radix stands, the kind is told by the point and the exponent. -/
theorem number_literal_kind_decimal {text : List Char} (flag : Bool)
    (hchars : ∀ c ∈ text, DecimalChar c)
    (hhead : ∃ c tail, text = c :: tail ∧ (c.isDigit = true ∨ c = '.')) :
    number_literal_kind text flag =
      if text.any fun c => c == '.' || c == 'e' || c == 'E' then
        if flag then .Decimal else .Float
      else .Integer := by
  obtain ⟨c, tail, rfl, hc⟩ := hhead
  have hne : c ≠ '$' ∧ c ≠ '+' ∧ c ≠ '-' := by
    obtain hc | rfl := hc
    · refine ⟨?_, ?_, ?_⟩ <;> rintro rfl <;> cases hc
    · decide
  rw [number_literal_kind_eq, split_sign_unsigned hne.2.1 hne.2.2,
    split_radix_prefix_of_chars hchars, if_neg (by simpa using hne.1), if_neg (by simp)]

/-- The parser gives a number the kind of its shape. -/
theorem IsNumber.literal_kind {shape : NumberShape} {number : List Char}
    (h : IsNumber features shape number) (flag : Bool) :
    number_literal_kind number flag = shape.kind flag := by
  cases h with
  | @radix radix marker body _ hmarker _ =>
    have hbase : ( split_radix_prefix ('0' :: marker :: body)).1 ≠ 10 := by
      cases radix <;>
        simp only [radix_markers, List.mem_cons, List.not_mem_nil, or_false] at hmarker <;>
        obtain rfl | rfl := hmarker <;> simp [ split_radix_prefix]
    simp [number_literal_kind, hbase, NumberShape.kind]
  | decimal h =>
    rw [number_literal_kind_decimal flag h.chars.1 h.chars.2.1]
    obtain ⟨rfl, hplain⟩ | ⟨rfl, hpoint⟩ := h.chars.2.2
    · rw [if_neg]
      · rfl
      · intro hany
        obtain ⟨c, hc, hmark⟩ := List.any_eq_true.mp hany
        obtain hdigit | rfl := hplain c hc
        · simp only [Bool.or_eq_true, beq_iff_eq] at hmark
          obtain (rfl | rfl) | rfl := hmark <;> cases hdigit
        · revert hmark
          decide
    · rw [if_pos (List.any_eq_true.mpr ⟨'.', hpoint, rfl⟩)]
      cases flag <;> rfl
  | @scientific inner mantissa exponent h hexponent =>
    obtain ⟨c, tail, hcons, hc⟩ := h.chars.2.1
    obtain ⟨marker, hmem, hmarker⟩ := hexponent.chars.2
    have hchars : ∀ c ∈ mantissa ++ exponent, DecimalChar c := fun c hc =>
      (List.mem_append.mp hc).elim (h.chars.1 c) (hexponent.chars.1 c)
    rw [number_literal_kind_decimal flag hchars ⟨c, tail ++ exponent, by rw [hcons]; rfl, hc⟩,
      if_pos]
    · cases flag <;> rfl
    · refine List.any_eq_true.mpr ⟨marker, List.mem_append_right _ hmem, ?_⟩
      simp only [List.mem_cons, List.not_mem_nil, or_false] at hmarker
      obtain rfl | rfl := hmarker <;> rfl

/-! ## The characters of a source -/

/-- A character with one byte is ASCII. -/
theorem ascii_of_lead {c : Char} {others : List SourceByte} (hsize : others.length + 1 = c.utf8Size)
    (hothers : others = []) : c.toNat < 0x80 := by
  rw [hothers] at hsize
  exact Nat.lt_succ_of_le (UInt32.le_iff_toNat_le.mp (Char.utf8Size_eq_one_iff.mp hsize.symm))

theorem ascii_char_encode {text : List Char} (h : ∀ c ∈ text, c.toNat < 0x80) :
    (encode text).map ascii_char = text := by
  induction text with
  | nil => rfl
  | cons c text ih =>
    have hc := h c (.head _)
    rw [encode_ascii text hc, List.map_cons, ih fun d hd => h d (.tail _ hd),
      (ascii_char_eq_iff hc).mpr rfl]

/-- ASCII bytes at the front of a source are characters at the front of its text. -/
theorem encode_split {text : List Char} {front back : List SourceByte}
    (heq : encode text = front ++ back) (h : ∀ c ∈ front.map ascii_char, c.toNat < 0x80) :
    ∃ behind, text = front.map ascii_char ++ behind ∧ back = encode behind := by
  induction front generalizing text with
  | nil => exact ⟨text, rfl, heq.symm⟩
  | cons b front ih =>
    cases text with
    | nil => cases heq
    | cons c text =>
      obtain ⟨first, others, hencode, hsize, hfirst, -⟩ := encode_char_eq c
      have hb : b.byte < 0x80 := ascii_char_lt (h _ (.head _))
      rw [encode_cons, hencode, List.cons_append, List.cons_append] at heq
      obtain ⟨rfl, hrest⟩ := List.cons.inj heq
      have hc := ascii_of_lead hsize (hfirst hb)
      rw [hfirst hb, List.nil_append] at hrest
      obtain ⟨behind, rfl, hback⟩ := ih hrest fun d hd => h d (.tail _ hd)
      have hsame : first = ascii c := by
        have hsingle := hencode.symm.trans (encode_char_ascii hc)
        simpa using (List.cons.inj hsingle).1
      refine ⟨behind, ?_, hback⟩
      rw [List.map_cons, (ascii_char_eq_iff hc).mpr hsame, List.cons_append]

/-! ## Names behind numbers -/

section
variable (unicode : Unicode) (features : FeatureSet)

/-- A name goes on with the character. -/
def continues_name (c : Char) : Bool :=
  is_identifier_continue unicode features c ||
    features.identifier_syntax.dollar_in_identifiers && c == '$'

theorem eat_identifier_run_encode (n pos : Nat) (text : List Char) (hn : text.length ≤ n) :
    eat_identifier_run unicode features n ⟨pos, encode text⟩ =
      .ok ⟨pos + (encode (text.takeWhile (continues_name unicode features))).length,
        encode (text.dropWhile (continues_name unicode features))⟩ := by
  induction n generalizing pos text with
  | zero =>
    obtain rfl : text = [] := List.length_eq_zero_iff.mp (Nat.le_zero.mp hn)
    rfl
  | succ n ih =>
    cases text with
    | nil => rfl
    | cons c text =>
      obtain ⟨first, others, hencode, hsize, hfirst, -⟩ := encode_char_eq c
      have hpeek : (Cursor.mk pos (encode (c :: text))).peek = some first := by
        rw [encode_cons, hencode]
        rfl
      have hchar : (Cursor.mk pos (encode (c :: text))).char_at 0 = some c := by
        rw [encode_cons, hencode]
        rfl
      have hlength : (encode_char c).length = c.utf8Size := by rw [hencode, ← hsize]; rfl
      have hadvance : (Cursor.mk pos (encode (c :: text))).advance_bytes c.utf8Size =
          ⟨pos + (encode_char c).length, encode text⟩ := by
        rw [Cursor.advance_bytes, encode_cons, ← hlength, List.drop_left]
      have hnext (h : continues_name unicode features c = true) :
          eat_identifier_run unicode features n ⟨pos + (encode_char c).length, encode text⟩ =
            .ok ⟨pos + (encode ((c :: text).takeWhile (continues_name unicode features))).length,
              encode ((c :: text).dropWhile (continues_name unicode features))⟩ := by
        rw [ih _ text (Nat.le_of_succ_le_succ hn), List.takeWhile_cons_of_pos h,
          List.dropWhile_cons_of_pos h, encode_cons, List.length_append, Nat.add_assoc]
      have hstop (h : ¬ continues_name unicode features c = true) :
          (.ok ⟨pos, encode (c :: text)⟩ : Scan Cursor) =
            .ok ⟨pos + (encode ((c :: text).takeWhile (continues_name unicode features))).length,
              encode ((c :: text).dropWhile (continues_name unicode features))⟩ := by
        rw [List.takeWhile_cons_of_neg h, List.dropWhile_cons_of_neg h]
        rfl
      rw [eat_identifier_run, hpeek]
      dsimp only
      by_cases hascii : c.toNat < 0x80
      · have hsingle := encode_char_ascii hascii
        obtain ⟨rfl, rfl⟩ : first = ascii c ∧ others = [] := by simpa [hencode] using hsingle
        have hcontinues : (features.has_byte_class (ascii c) CLASS_IDENTIFIER_CONTINUE ||
            features.identifier_syntax.dollar_in_identifiers && ascii c == ascii '$') =
            continues_name unicode features c := by
          have hdollar : (ascii c == ascii '$') = (c == '$') := by
            rw [Bool.eq_iff_iff, beq_iff_eq, beq_iff_eq]
            exact ⟨ascii_inj hascii (by decide), congrArg ascii⟩
          rw [continues_name, is_identifier_continue, if_pos hascii, hdollar]
        have hbump : (Cursor.mk pos (encode (c :: text))).bump =
            ⟨pos + (encode_char c).length, encode text⟩ := by
          rw [Cursor.bump, encode_cons, hencode]
          rfl
        rw [if_pos (ascii_lt hascii), hcontinues, hbump]
        split
        · exact hnext ‹_›
        · exact hstop ‹_›
      · have hlead : ¬ first < 0x80 := fun h => hascii (ascii_of_lead hsize (hfirst h))
        have hcontinues : is_identifier_continue unicode features c =
            continues_name unicode features c := by
          have hdollar : (c == '$') = false := by
            rw [beq_eq_false_iff_ne]
            rintro rfl
            exact hascii (by decide)
          rw [continues_name, hdollar, Bool.and_false, Bool.or_false]
        rw [if_neg hlead, hchar]
        dsimp only
        rw [hcontinues, hadvance]
        split
        · exact hnext ‹_›
        · exact hstop ‹_›

theorem length_le_encode (text : List Char) : text.length ≤ (encode text).length := by
  induction text with
  | nil => exact le_rfl
  | cons c text ih =>
    obtain ⟨first, others, hencode, -⟩ := encode_char_eq c
    rw [encode_cons, hencode, List.cons_append, List.length_cons, List.length_cons,
      List.length_append]
    omega

/-- The scanner passes the characters that a name goes on with. -/
theorem eat_identifier_continue_encode (pos : Nat) (text : List Char) :
    eat_identifier_continue unicode features ⟨pos, encode text⟩ =
      .ok ⟨pos + (encode (text.takeWhile (continues_name unicode features))).length,
        encode (text.dropWhile (continues_name unicode features))⟩ :=
  eat_identifier_run_encode unicode features _ pos text (length_le_encode text)

theorem identifier_starts_at_encode (pos : Nat) (text : List Char) :
    identifier_starts_at unicode features ⟨pos, encode text⟩ 0 =
      text.head?.any (is_identifier_start unicode features) := by
  unfold identifier_starts_at Cursor.char_at
  cases text with
  | nil => rfl
  | cons c text => rw [char_at_encode, List.head?_cons]

end

/-! ## The rule -/

/-- Where a number starts the scanner takes the longest one, and gives it the kind that it has. It
    is refused where a name goes on behind it and the dialect rejects that. -/
theorem scan_number_spec (unicode : Unicode) (features : FeatureSet) (hplain : PlainDigits features)
    (pos : Nat) (text : List Char) (hstarts : NumberStarts features ⟨pos, encode text⟩) :
    ∃ shape number behind, text = number ++ behind ∧ IsNumber features shape number ∧
      (∀ shape' other, IsNumber features shape' other → other <+: text →
        other.length ≤ number.length) ∧
      (∀ flag, number_literal_kind number flag = shape.kind flag) ∧
      scan_number unicode features ⟨pos, encode text⟩ =
        if features.numeric_literals.reject_trailing_junk = true ∧
            behind.head?.any (is_identifier_start unicode features) = true then
          lex_error .TrailingJunkAfterNumber pos (pos + number.length +
            (encode (behind.takeWhile (continues_name unicode features))).length)
        else .ok (emit .Number ⟨pos, encode text⟩ ⟨pos + number.length, encode behind⟩) := by
  obtain ⟨shape, front, back, hsplit, hstop, hnumber, hlongest⟩ := eat_number_longest hplain hstarts
  obtain ⟨behind, htext, rfl⟩ := encode_split hsplit fun c hc => hnumber.lt hc
  refine ⟨shape, front.map ascii_char, behind, htext, hnumber, fun shape' other hother hprefix => ?_,
    hnumber.literal_kind, ?_⟩
  · obtain ⟨rest, rfl⟩ := hprefix
    rw [List.length_map]
    refine hlongest shape' other ((encode rest).map ascii_char) hother ?_
    rw [text_at, encode_append, List.map_append, ascii_char_encode fun c hc => hother.lt hc]
  · unfold scan_number
    dsimp only
    rw [hstop, identifier_starts_at_encode, List.length_map]
    by_cases hjunk : features.numeric_literals.reject_trailing_junk = true ∧
        behind.head?.any (is_identifier_start unicode features) = true
    · rw [if_pos (by simpa using hjunk), if_pos hjunk, eat_identifier_continue_encode]
      rfl
    · rw [if_neg (by simpa using hjunk), if_neg hjunk]
      rfl

theorem has_class_standard (byte : UInt8) :
    STANDARD_BYTE_CLASSES.has_class byte CLASS_DIGIT = is_ascii_digit byte := by
  -- The classes of a byte have a bit each.
  have hbits : ∀ blank start follows digit operator punctuation : Bool,
      (((bif blank then CLASS_WHITESPACE else 0) |||
        (bif start then CLASS_IDENTIFIER_START else 0) |||
        (bif follows then CLASS_IDENTIFIER_CONTINUE else 0) |||
        (bif digit then CLASS_DIGIT else 0) ||| (bif operator then CLASS_OPERATOR else 0) |||
        (bif punctuation then CLASS_PUNCTUATION else 0)) &&& CLASS_DIGIT != 0) = digit := by
    decide
  exact hbits _ _ _ _ _ _

theorem has_class_with_class (table : ByteClasses) (byte other : UInt8) {added mask : UInt8}
    (h : added &&& mask = 0) :
    (table.with_class byte added).has_class other mask = table.has_class other mask := by
  unfold ByteClasses.has_class ByteClasses.byte_class ByteClasses.with_class
  dsimp only
  cases other == byte
  · rfl
  · have hmask : (table.table other ||| added) &&& mask = table.table other &&& mask := by
      have hbits : added.toBitVec &&& mask.toBitVec = 0 := congrArg UInt8.toBitVec h
      apply UInt8.eq_of_toBitVec_eq
      rw [UInt8.toBitVec_and, UInt8.toBitVec_or, BitVec.and_or_distrib_right, hbits]
      exact BitVec.or_zero
    rw [cond_true, hmask]

/-- The dialects of the crate have the ASCII digits. -/
theorem BuiltinDialect.plainDigits (dialect : BuiltinDialect) : PlainDigits dialect.features := by
  intro byte
  rw [← has_class_standard]
  cases dialect <;> first | rfl | exact has_class_with_class _ _ byte (by decide)

theorem scan_number_spec_duckdb :
    let cursor : Cursor := .new (encode "1.5e3_0abc".toList)
    ∃ shape number behind, "1.5e3_0abc".toList = number ++ behind ∧
      IsNumber .DUCKDB shape number ∧
      (∀ flag, number_literal_kind number flag = shape.kind flag) ∧
      scan_number ⟨Char.isAlpha, Char.isAlphanum⟩ .DUCKDB cursor =
        .ok (emit .Number cursor ⟨0 + number.length, encode behind⟩) := by
  intro cursor
  obtain ⟨shape, number, behind, htext, hnumber, -, hkind, hscan⟩ :=
    scan_number_spec ⟨Char.isAlpha, Char.isAlphanum⟩ .DUCKDB
      (BuiltinDialect.plainDigits .DuckDb) 0 "1.5e3_0abc".toList (.inl (by decide))
  exact ⟨shape, number, behind, htext, hnumber, hkind, hscan⟩

/-- DuckDB takes a separator directly behind the point, and where a table has more digits than the
    ASCII ones the scanner stops inside of a number. -/
theorem separator_leads_fraction :
    let unicode : Unicode := ⟨Char.isAlpha, Char.isAlphanum⟩
    let led : Cursor := .new (encode "1._5".toList)
    let features : FeatureSet :=
      { FeatureSet.ANSI with
        byte_classes := STANDARD_BYTE_CLASSES.with_class (ascii 'e') CLASS_DIGIT }
    let scientific : Cursor := .new (encode "1e+5".toList)
    (scan_number unicode .DUCKDB led = .ok (emit .Number led (led.advance_bytes 4)) ∧
      ¬ SeparatorsPlaced 10 "1._5".toList) ∧
    scan_number unicode features scientific =
        .ok (emit .Number scientific (scientific.advance_bytes 2)) ∧
      IsNumber features .Fractional "1e+5".toList := by
  intro unicode led features scientific
  refine ⟨⟨by decide, fun h => ?_⟩, by decide, ?_⟩
  · obtain ⟨⟨c, hc, hdigit⟩, -⟩ := h ['1', '.'] ['5'] rfl
    obtain rfl : c = '.' := (Option.some.inj hc).symm
    revert hdigit
    decide
  · have hrun (c : Char) (hc : c.isDigit = true) : IsRun features Char.isDigit [c] :=
      ⟨c, [], rfl, hc, .nil⟩
    exact .scientific (.whole (hrun '1' rfl))
      ⟨'e', ['+'], ['5'], rfl, by decide, by decide, hrun '5' rfl⟩

/-- A second point does not belong to the number. -/
example :
    let cursor : Cursor := .new (encode "1..2".toList)
    scan_number ⟨Char.isAlpha, Char.isAlphanum⟩ .POSTGRES cursor =
      .ok (emit .Number cursor (cursor.advance_bytes 2)) := by
  decide

/-- Without a digit behind it the letter is no exponent. -/
example :
    let cursor : Cursor := .new (encode "1.e".toList)
    scan_number ⟨Char.isAlpha, Char.isAlphanum⟩ .DUCKDB cursor =
      .ok (emit .Number cursor (cursor.advance_bytes 2)) := by
  decide

end squonk.tokenizer.scan
