import Squonk.Tokenizer.Extent
import Squonk.Tokenizer.Trivia

/-!
# The dispatch

Whatever routine the first byte of a lexeme selects, the lexeme has the extent of its token, and
inside of a character no lexeme starts.
-/

open squonk.dialect squonk.dialect.lex_class squonk.document

namespace squonk.tokenizer.scan

variable {features : FeatureSet} {unicode : Unicode}

theorem length_of_peek_nth {c : Cursor} {n : Nat} {byte : UInt8} (h : c.peek_nth n = some byte) :
    n + 1 ≤ c.rest.length := by
  obtain ⟨b, hb, -⟩ := Option.map_eq_some_iff.mp h
  exact (List.getElem?_eq_some_iff.mp hb).1

theorem ascii_lt {c : Char} (h : c.toNat < 0x80) : ascii c < 0x80 := by
  have h80 : (0x80 : UInt8).toNat = 128 := rfl
  rw [UInt8.lt_iff_toNat_lt, h80]
  show (UInt8.ofNat c.toNat).toNat < 128
  rw [UInt8.toNat_ofNat']
  omega

theorem charset_introducer_prefix_some {c : Cursor} {n : Nat} {close : UInt8}
    (h : charset_introducer_prefix features c = some (n, close)) :
    n ≤ c.rest.length ∧ close < 0x80 := by
  unfold charset_introducer_prefix at h
  dsimp only at h
  split at h
  · cases h
  split at h
  · rename_i hquote
    cases h
    have hlength := length_of_peek_nth (peek_of_nth hquote)
    exact ⟨by omega, by decide⟩
  split at h
  · rename_i hquote
    cases h
    have hlength := length_of_peek_nth (peek_of_nth ((Bool.and_eq_true _ _).mp hquote).1)
    exact ⟨by omega, by decide⟩
  · cases h

section
variable {start : Cursor} {byte : UInt8} (htext : IsText start.rest)
  (hpeek : start.peek = some byte) {scanned : Scan (Token × Cursor)}
include htext hpeek

theorem scan_marked_lexes (h : scan_marked unicode features start byte = some scanned) :
    Lexes features start scanned := by
  have hone : 1 ≤ start.rest.length := length_of_peek_nth hpeek
  have htwo {x : Char} (h : (start.peek_nth 1 == some (ascii x)) = true) :
      2 ≤ start.rest.length :=
    length_of_peek_nth (peek_of_nth h)
  unfold scan_marked at h
  simp only [Bool.and_eq_true] at h
  split at h
  · cases h
    exact scan_escape_string_lexes htext hone
  split at h
  · cases h
    exact scan_marked_string_lexes htext hone (by decide)
  split at h
  · cases h
    exact scan_marked_string_lexes htext (htwo (by tauto)) (by decide)
  split at h
  · cases h
    exact scan_unicode_ident_lexes htext (htwo (by tauto))
  split at h
  · cases h
    exact scan_hex_blob_lexes htext (htwo (by tauto))
  split at h
  · cases h
    exact scan_marked_string_lexes htext hone (by decide)
  split at h
  · split at h
    · rename_i hprefix
      cases h
      obtain ⟨hn, hclose⟩ := charset_introducer_prefix_some hprefix
      exact scan_marked_string_lexes htext hn hclose
    · cases h
      exact scan_word_lexes htext
  · cases h

omit hpeek in
theorem scan_delimited_lexes (h : scan_delimited features start byte = some scanned) :
    Lexes features start scanned := by
  unfold scan_delimited at h
  dsimp only at h
  split at h
  · rename_i hquote
    cases h
    rw [beq_iff_eq] at hquote
    exact scan_quoted_lexes htext (show byte < 0x80 by rw [hquote]; decide)
  split at h
  · rename_i hquote
    cases h
    rw [Bool.and_eq_true, beq_iff_eq] at hquote
    exact scan_quoted_lexes htext (show byte < 0x80 by rw [hquote.1]; decide)
  · obtain ⟨close, hclose, rfl⟩ := Option.map_eq_some_iff.mp h
    refine scan_quoted_lexes htext ?_
    obtain ⟨⟨opening, closing⟩, -, hquotes⟩ := List.exists_of_findSome?_eq_some hclose
    dsimp only at hquotes
    split at hquotes
    · rename_i hascii
      cases hquotes
      simp only [Bool.and_eq_true, decide_eq_true_eq] at hascii
      exact ascii_lt hascii.2
    · cases hquotes

theorem scan_dollar_lexes (hbyte : byte = ascii '$') :
    Lexes features start (scan_dollar unicode features start) := by
  subst hbyte
  have hparameter : Lexes features start (scan_parameter unicode features start) :=
    scan_parameter_lexes htext hpeek (by decide)
  unfold scan_dollar
  exact .ite (fun _ => scan_money_lexes htext hpeek) fun _ => .ite (fun _ => hparameter) fun _ =>
    .ite (fun _ => hparameter) fun _ => .ite (fun _ => scan_dollar_quote_lexes htext hpeek) fun _ =>
      .lex_error

theorem scan_at_lexes (hbyte : byte < 0x80)
    (h : scan_at unicode features start = some scanned) : Lexes features start scanned := by
  have hvariable : Lexes features start (scan_session_variable unicode features start) :=
    scan_session_variable_lexes htext hpeek hbyte
  have hoperator : Lexes features start (scan_operator features start) :=
    scan_operator_lexes htext hpeek hbyte
  unfold scan_at at h
  dsimp only at h
  split at h
  · cases h
    exact scan_stage_reference_lexes htext hpeek hbyte
  split at h
  · cases h
    exact hvariable
  split at h
  · cases h
    exact hvariable
  split at h
  · cases h
    exact scan_parameter_lexes htext hpeek hbyte
  split at h
  · cases h
    exact hoperator
  split at h
  · cases h
    exact hoperator
  split at h
  · cases h
    exact hoperator
  split at h
  · cases h
    exact .emit (.bump htext hpeek hbyte) (lt_of_bump hpeek (.refl _))
  · cases h

theorem scan_question_lexes (hbyte : byte < 0x80)
    (h : scan_question unicode features start = some scanned) : Lexes features start scanned := by
  have hparameter : Lexes features start (scan_parameter unicode features start) :=
    scan_parameter_lexes htext hpeek hbyte
  unfold scan_question at h
  split at h
  · cases h
    exact hparameter
  split at h
  · cases h
    exact hparameter
  split at h
  · cases h
    exact scan_operator_lexes htext hpeek hbyte
  · cases h

theorem scan_sigil_lexes (h : scan_sigil unicode features start byte = some scanned) :
    Lexes features start scanned := by
  unfold scan_sigil at h
  simp only [Bool.and_eq_true, beq_iff_eq] at h
  split at h
  · cases h
    exact scan_dollar_lexes htext hpeek ‹_›
  split at h
  · exact scan_question_lexes htext hpeek (by rw [‹byte = ascii '?'›]; decide) h
  split at h
  · rename_i hcolon
    cases h
    exact scan_parameter_lexes htext hpeek (by rw [hcolon.1.1]; decide)
  split at h
  · exact scan_at_lexes htext hpeek (by rw [‹byte = ascii '@'›]; decide) h
  · cases h

theorem scan_class_lexes : Lexes features start (scan_class unicode features start byte) := by
  unfold scan_class
  refine .ite (fun _ => scan_word_lexes htext) fun _ => .ite (fun _ => ?_) fun hascii => ?_
  · split
    · exact .error
    · exact .ite (fun _ => scan_word_lexes htext) fun _ => .lex_error
  have hbyte : byte < 0x80 := UInt8.not_le.mp hascii
  have hoperator : Lexes features start (scan_operator features start) :=
    scan_operator_lexes htext hpeek hbyte
  refine .ite (fun hdigit => scan_number_lexes htext hpeek (.inl hdigit)) fun _ =>
    .ite (fun hdot => scan_number_lexes htext hpeek (.inr ?_)) fun _ =>
    .ite (fun _ => scan_positional_column_lexes htext hpeek hbyte) fun _ =>
    .ite (fun _ => hoperator) fun _ => .ite (fun _ => hoperator) fun _ =>
    .ite (fun _ => hoperator) fun _ => .ite (fun _ => scan_punctuation_lexes htext hpeek hbyte)
      fun _ => .lex_error
  simpa using ((Bool.and_eq_true _ _).mp hdot).1

theorem scan_token_lexes : Lexes features start (scan_token unicode features start byte) := by
  unfold scan_token
  cases hmarked : scan_marked unicode features start byte with
  | some scanned => exact scan_marked_lexes htext hpeek hmarked
  | none =>
    cases hdelimited : scan_delimited features start byte with
    | some scanned => exact scan_delimited_lexes htext hdelimited
    | none =>
      cases hsigil : scan_sigil unicode features start byte with
      | some scanned => exact scan_sigil_lexes htext hpeek hsigil
      | none => exact scan_class_lexes htext hpeek

end

/-! ## Inside of a character -/

section
variable {start : Cursor} {byte : UInt8} (hbyte : 0x80 ≤ byte)
include hbyte

theorem not_ascii {c : Char} (hc : c.toNat < 0x80) : (byte == ascii c) = false := by
  rw [beq_eq_false_iff_ne]
  rintro rfl
  exact UInt8.not_lt.mpr hbyte (ascii_lt hc)

theorem scan_marked_none : scan_marked unicode features start byte = none := by
  unfold scan_marked
  simp [not_ascii hbyte (c := 'E') (by decide), not_ascii hbyte (c := 'e') (by decide),
    not_ascii hbyte (c := 'N') (by decide), not_ascii hbyte (c := 'n') (by decide),
    not_ascii hbyte (c := 'U') (by decide), not_ascii hbyte (c := 'u') (by decide),
    not_ascii hbyte (c := 'X') (by decide), not_ascii hbyte (c := 'x') (by decide),
    not_ascii hbyte (c := 'B') (by decide), not_ascii hbyte (c := 'b') (by decide),
    not_ascii hbyte (c := '_') (by decide)]

theorem scan_delimited_none : scan_delimited features start byte = none := by
  have hquotes : opening_identifier_quote features byte = none := by
    refine List.findSome?_eq_none_iff.mpr fun style _ => ?_
    obtain ⟨opening, closing⟩ := style
    refine if_neg fun h => ?_
    simp only [Bool.and_eq_true, decide_eq_true_eq] at h
    have hne := not_ascii hbyte h.1.1
    rw [BEq.comm, h.1.2] at hne
    cases hne
  unfold scan_delimited
  simp [not_ascii hbyte (c := single_quote) (by decide), not_ascii hbyte (c := '"') (by decide),
    hquotes]

theorem scan_sigil_none : scan_sigil unicode features start byte = none := by
  unfold scan_sigil
  simp [not_ascii hbyte (c := '$') (by decide), not_ascii hbyte (c := '?') (by decide),
    not_ascii hbyte (c := ':') (by decide), not_ascii hbyte (c := '@') (by decide)]

/-- No lexeme starts where no character begins. -/
theorem scan_token_of_char_none (hchar : start.char_at 0 = none) :
    scan_token unicode features start byte = .error .panic := by
  unfold scan_token
  rw [scan_marked_none hbyte, scan_delimited_none hbyte, scan_sigil_none hbyte]
  simp only [Option.or_none, Option.getD_none, scan_class, hbyte, if_true, hchar]
  split
  · simp only [scan_word, Cursor.bump_char, hchar, Option.map_none]
  · rfl

end

end squonk.tokenizer.scan
