import Mathlib
import Squonk.Parser.Name.Doubled

/-!
# Names alone

What the scanner makes of a text that is one name in quotes and nothing else.
-/

open squonk.dialect squonk.dialect.lex_class squonk.document squonk.tokenizer.scan
open squonk.tokenizer hiding Token

namespace squonk.parser.name

/-! ## The body -/

section
variable {quoting : QuoteScan} {opening close : Char} {c stop : Cursor} {cs : List Char}

theorem bump_encode (hopening : opening.toNat < 0x80) (hrest : c.rest = encode (opening :: cs)) :
    c.bump = ⟨c.pos + 1, encode cs⟩ := by
  rw [encode_ascii _ hopening] at hrest
  unfold Cursor.bump
  rw [hrest]

theorem scan_body_encode (hopening : opening.toNat < 0x80)
    (hrest : c.rest = encode (opening :: cs)) (hclose : quoting.close = ascii close)
    (hascii : close.toNat < 0x80) (hne : close ≠ backslash) (start : Nat) :
    scan.scan_quoted_body c start quoting =
      match tokenizer.scan_quoted_body close quoting.backslash cs with
      | none => lex_error quoting.unterminated start (c.pos + 1 + (encode cs).length)
      | some (body, rest) =>
        closed quoting start (c.pos + 1) ⟨c.pos + 1 + (encode body).length, encode rest⟩ := by
  unfold scan.scan_quoted_body
  rw [bump_encode hopening hrest]
  exact scan_quote_run_encode hclose hascii hne _ _ _ _

/-- A body that is scanned ends where the characters say. -/
theorem scan_body_ok (hopening : opening.toNat < 0x80) (hrest : c.rest = encode (opening :: cs))
    (hclose : quoting.close = ascii close) (hascii : close.toNat < 0x80) (hne : close ≠ backslash)
    {start : Nat} {token : Token}
    (h : scan.scan_quoted_body c start quoting = .ok (token, stop)) :
    ∃ body rest, tokenizer.scan_quoted_body close quoting.backslash cs = some (body, rest) ∧
      stop = ⟨c.pos + 1 + (encode body).length, encode rest⟩ ∧
      closed quoting start (c.pos + 1) stop = .ok (token, stop) := by
  rw [scan_body_encode hopening hrest hclose hascii hne] at h
  split at h
  · cases h
  · rename_i body rest hbody
    have hstop : stop = ⟨c.pos + 1 + (encode body).length, encode rest⟩ := by
      unfold closed at h
      split at h
      · cases h
      · cases h
        rfl
    exact ⟨body, rest, hbody, hstop, by rw [hstop] at h ⊢; exact h⟩

/-! ## The segments behind it -/

theorem encode_eq_nil {cs : List Char} (h : encode cs = []) : cs = [] := by
  cases cs with
  | nil => rfl
  | cons c cs =>
    obtain ⟨first, others, heq, -⟩ := encode_char_eq c
    rw [encode_cons, heq] at h
    cases h

theorem lt_of_is_gap {b : SourceByte} (h : escape.is_gap b = true) : b.byte < 0x80 := by
  simp only [escape.is_gap, escape.is_line_break, Bool.or_eq_true, beq_iff_eq] at h
  obtain ((((h | h) | h) | h) | h) | h := h
  all_goals
    rw [h]
    decide

/-- Blanks in front of a text with doubled delimiters are part of the text. -/
theorem drop_gap_trailing (hascii : close.toNat < 0x80)
    (hgap : escape.is_gap ⟨ascii close, none⟩ = false) (h : Trailing close cs) :
    ∃ cs', (encode cs).dropWhile (fun b => escape.is_gap ⟨b.byte, none⟩) = encode cs' ∧
      Trailing close cs' := by
  obtain ⟨text, rfl⟩ := h
  have hstays (cs : List Char) :
      (encode (close :: cs)).dropWhile (fun b => escape.is_gap ⟨b.byte, none⟩) =
        encode (close :: cs) := by
    rw [encode_ascii _ hascii, List.dropWhile_cons_of_neg (by simp only [hgap]; simp)]
  induction text with
  | nil => exact ⟨_, hstays [], [], rfl⟩
  | cons d text ih =>
    by_cases hd : d = close
    · rw [hd, double_cons_self, List.cons_append]
      exact ⟨_, hstays _, close :: text, by rw [double_cons_self]; rfl⟩
    rw [double_cons_of_ne hd, List.cons_append]
    by_cases hblank : d.toNat < 0x80 ∧ escape.is_gap ⟨ascii d, none⟩ = true
    · obtain ⟨cs', hdrop, htrailing⟩ := ih
      refine ⟨cs', ?_, htrailing⟩
      rw [encode_ascii _ hblank.1, List.dropWhile_cons_of_pos (by exact hblank.2), hdrop]
    · refine ⟨d :: (double close text ++ [close]), ?_, d :: text, by rw [double_cons_of_ne hd]; rfl⟩
      obtain ⟨first, others, heq, hsize, hfirst, -⟩ := encode_char_eq d
      rw [encode_cons, heq, List.cons_append, List.dropWhile_cons_of_neg]
      intro hgap'
      apply hblank
      have hlt := lt_of_is_gap hgap'
      have hd' : d.toNat < 0x80 := by
        by_contra hlarge
        rw [hfirst hlt, List.length_nil] at hsize
        have hvalue : d.val ≤ 127 := Char.utf8Size_eq_one_iff.mp hsize.symm
        exact hlarge (Nat.lt_succ_of_le (UInt32.le_iff_toNat_le.mp hvalue))
      refine ⟨hd', ?_⟩
      rw [encode_char_ascii hd'] at heq
      cases heq
      exact hgap'

/-- The delimiters of strings. -/
def string_quotes : List Char := [single_quote, '"']

theorem string_quote_cases (hclose : close ∈ string_quotes) :
    close.toNat < 0x80 ∧ close ≠ backslash ∧ escape.is_gap ⟨ascii close, none⟩ = false := by
  simp only [string_quotes, List.mem_cons, List.not_mem_nil, or_false] at hclose
  obtain rfl | rfl := hclose
  all_goals exact ⟨by decide, by decide, by decide⟩

/-- The delimiter of a further segment is the one at the cursor. -/
theorem continuation_close_eq {segment : UInt8} (hclose : quoting.close = ascii close)
    (hmem : close ∈ string_quotes) (h : continuation_close quoting c = some segment) :
    ∃ q ∈ string_quotes, segment = ascii q ∧ c.peek = some (ascii q) ∧
      (close = single_quote → q = single_quote) := by
  unfold continuation_close at h
  split at h
  · rename_i hpeek
    cases h
    exact ⟨single_quote, .head _, rfl, beq_iff_eq.mp hpeek, fun _ => rfl⟩
  split at h
  · rename_i hpeek
    cases h
    simp only [Bool.and_eq_true, beq_iff_eq] at hpeek
    refine ⟨'"', .tail _ (.head _), rfl, hpeek.1, ?_⟩
    rintro rfl
    rw [hclose] at hpeek
    exact absurd hpeek.2 (by decide)
  · cases h

theorem eq_of_peek_encode {q d : Char} (hq : q.toNat < 0x80) (hrest : c.rest = encode (d :: cs))
    (hpeek : c.peek = some (ascii q)) : d = q := by
  by_contra hne
  obtain ⟨first, others, heq, -⟩ := encode_char_eq d
  have hfirst := bytes_ne hq hne ⟨first, some d⟩ (by rw [heq]; exact .head _)
  rw [encode_cons, heq, List.cons_append] at hrest
  rw [Cursor.peek, Cursor.peek_nth, hrest] at hpeek
  exact hfirst (Option.some.inj hpeek)

/-- A further segment ends in front of a delimiter as well. -/
theorem segment_trailing {segment : QuoteScan} (hclose : quoting.close = ascii close)
    (hmem : close ∈ string_quotes) (hescapes : segment.backslash = true)
    (hopens : continuation_close quoting c = some segment.close) (hrest : c.rest = encode cs)
    (htrailing : Trailing close cs) {start : Nat} {token : Token}
    (h : scan.scan_quoted_body c start segment = .ok (token, stop)) :
    ∃ cs', stop.rest = encode cs' ∧ Trailing close cs' := by
  obtain ⟨q, hq, hsegment, hpeek, hsame⟩ := continuation_close_eq hclose hmem hopens
  obtain ⟨hqascii, hqback, -⟩ := string_quote_cases hq
  obtain ⟨hascii, hback, -⟩ := string_quote_cases hmem
  obtain ⟨text, rfl⟩ := htrailing
  -- the delimiter at the cursor is the last one, the first one of a pair or another character
  have hbody (behind : List Char) (hbehind : double close text ++ [close] = q :: behind) :
      ∃ body rest, tokenizer.scan_quoted_body q true behind = some (body, rest) ∧
        stop.rest = encode rest := by
    rw [hbehind] at hrest
    obtain ⟨body, rest, hbody, rfl, -⟩ := scan_body_ok hqascii hrest hsegment hqascii hqback h
    rw [hescapes] at hbody
    exact ⟨body, rest, hbody, rfl⟩
  match text with
  | [] =>
    obtain rfl : close = q := eq_of_peek_encode hqascii hrest hpeek
    obtain ⟨body, rest, hnone, -⟩ := hbody [] rfl
    cases hnone
  | d :: text =>
    by_cases hd : d = close
    · subst hd
      rw [double_cons_self, List.cons_append] at hrest
      obtain rfl : d = q := eq_of_peek_encode hqascii hrest hpeek
      obtain ⟨body, rest, hscan, hstop⟩ :=
        hbody (d :: (double d text ++ [d])) (by rw [double_cons_self]; rfl)
      exact ⟨rest, hstop, trailing_of_odd hback text hscan⟩
    · rw [double_cons_of_ne hd, List.cons_append] at hrest
      obtain rfl : d = q := eq_of_peek_encode hqascii hrest hpeek
      obtain ⟨body, rest, hscan, hstop⟩ :=
        hbody (double close text ++ [close]) (by rw [double_cons_of_ne hd]; rfl)
      exact ⟨rest, hstop, trailing_of_other hqback (Ne.symm hd) hback text hscan⟩

/-- However many segments follow, something is left behind them. -/
theorem extend_trailing (hclose : quoting.close = ascii close) (hmem : close ∈ string_quotes)
    (hescapes : quoting.backslash = true) (n : Nat) {continued continued' : Bool}
    {token token' : Token} (hrest : c.rest = encode cs) (htrailing : Trailing close cs)
    (h : extend_string_run quoting n continued (token, c) = .ok ((token', continued'), stop)) :
    stop.rest ≠ [] := by
  induction n generalizing continued token c cs with
  | zero =>
    cases h
    rw [hrest]
    exact fun hnil => htrailing.ne_nil (encode_eq_nil hnil)
  | succ n ih =>
    have hhere : c.rest ≠ [] := by
      rw [hrest]
      exact fun hnil => htrailing.ne_nil (encode_eq_nil hnil)
    obtain ⟨hascii, -, hgap⟩ := string_quote_cases hmem
    unfold extend_string_run at h
    simp only at h
    split at h
    · rename_i segment hsegment
      split at h
      · obtain ⟨⟨token'', next⟩, hscan, hnext⟩ := bind_eq_ok.mp h
        obtain ⟨cs', hdrop, htrailing'⟩ := drop_gap_trailing hascii hgap htrailing
        have hbehind : (c.eat_while fun byte => escape.is_gap ⟨byte, none⟩).rest = encode cs' := by
          rw [Cursor.eat_while_rest, hrest, hdrop]
        have hopens : continuation_close quoting (c.eat_while fun byte => escape.is_gap ⟨byte, none⟩) =
            some (QuoteScan.mk segment .String .UnterminatedString quoting.backslash false).close :=
          hsegment
        obtain ⟨cs'', hnext', htrailing''⟩ := segment_trailing hclose hmem
          (show (QuoteScan.mk segment .String .UnterminatedString quoting.backslash false).backslash =
            true from hescapes) hopens hbehind htrailing' hscan
        exact ih hnext' htrailing'' hnext
      · cases h
        exact hhere
    · cases h
      exact hhere

/-! ## The lexeme -/

/-- The text between delimiters, its own ones doubled. -/
def quoted_text (opening close : Char) (text : List Char) : List Char :=
  opening :: (double close text ++ [close])

variable {text : List Char}

theorem scan_quoted_text (hopening : opening.toNat < 0x80) (hclose : quoting.close = ascii close)
    (hascii : close.toNat < 0x80) (hne : close ≠ backslash)
    (hzero : quoting.kind = .QuotedIdent → quoting.allow_zero_length = false → text ≠ [])
    (hsettled : quoting.backslash = true → settled close text = true) :
    scan_quoted (.new (encode (quoted_text opening close text))) quoting =
      .ok (⟨quoting.kind, ⟨0, (encode (quoted_text opening close text)).length⟩⟩,
        ⟨(encode (quoted_text opening close text)).length, []⟩) := by
  have hlength : (encode (quoted_text opening close text)).length =
      0 + 1 + (encode (double close text ++ [close])).length := by
    rw [quoted_text, encode_ascii _ hopening, List.length_cons]
    omega
  have hwhole : tokenizer.scan_quoted_body close quoting.backslash (double close text ++ [close]) =
      some (double close text ++ [close], []) := by
    cases hback : quoting.backslash with
    | false => exact scan_double hne text
    | true => exact scan_double_of_settled hne text (hsettled hback)
  have hbody : scan.scan_quoted_body (.new (encode (quoted_text opening close text))) 0 quoting =
      .ok (⟨quoting.kind, ⟨0, (encode (quoted_text opening close text)).length⟩⟩,
        ⟨(encode (quoted_text opening close text)).length, []⟩) := by
    rw [scan_body_encode hopening (show (Cursor.new (encode (quoted_text opening close text))).rest =
      encode (opening :: (double close text ++ [close])) from rfl) hclose hascii hne, hwhole, hlength]
    have hsome : (quoting.kind == .QuotedIdent && !quoting.allow_zero_length &&
        0 + 1 + (encode (double close text ++ [close])).length == 0 + 1 + 1) = false := by
      by_contra hempty
      simp only [Bool.not_eq_false, Bool.and_eq_true, beq_iff_eq, Bool.not_eq_true'] at hempty
      obtain ⟨⟨hkind, hallow⟩, hsize⟩ := hempty
      have hone : (encode [close]).length = 1 := by
        rw [encode_ascii [] hascii]
        rfl
      rw [encode_append, List.length_append, hone] at hsize
      have hnil : double close text = [] :=
        encode_eq_nil (List.eq_nil_of_length_eq_zero (by omega))
      apply hzero hkind hallow
      rw [← undouble_double close text, hnil]
      rfl
    simp only [closed, Cursor.new, hsome, Bool.false_eq_true, if_false]
    rfl
  unfold scan_quoted
  rw [show (Cursor.new (encode (quoted_text opening close text))).pos = 0 from rfl, hbody]
  simp only [bind, Except.bind, pure, Except.pure]
  split
  · rfl
  · rfl

/-- Where a backslash escapes one of the delimiters, the lexeme leaves some of the text. -/
theorem scan_quoted_unsettled (hopening : opening.toNat < 0x80) (hmem : close ∈ string_quotes)
    (hclose : quoting.close = ascii close) (hkind : quoting.kind = .String)
    (hescapes : quoting.backslash = true) (hsettled : settled close text = false) {token : Token}
    (h : scan_quoted (.new (encode (quoted_text opening close text))) quoting = .ok (token, stop)) :
    stop.rest ≠ [] := by
  obtain ⟨hascii, hne, -⟩ := string_quote_cases hmem
  unfold scan_quoted at h
  obtain ⟨⟨token', next⟩, hscan, hrest⟩ := bind_eq_ok.mp h
  obtain ⟨body, rest, hbody, rfl, hclosed⟩ := scan_body_ok hopening
    (show (Cursor.new (encode (quoted_text opening close text))).rest =
      encode (opening :: (double close text ++ [close])) from rfl) hclose hascii hne hscan
  rw [hescapes] at hbody
  have htrailing := trailing_of_unsettled hne text hsettled hbody
  have hstring : (token'.kind == .String && quoting.backslash) = true := by
    rw [closed_kind hclosed, hkind, hescapes]
    rfl
  simp only [hstring, if_true] at hrest
  obtain ⟨⟨⟨token'', continued⟩, stop'⟩, hextend, hrest⟩ := bind_eq_ok.mp hrest
  cases hrest
  exact extend_trailing hclose hmem hescapes _ rfl htrailing hextend

end

end squonk.parser.name
