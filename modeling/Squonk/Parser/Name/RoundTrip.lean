import Mathlib
import Squonk.Parser.Name.Strings
import Squonk.Tokenizer.Stepwise

/-!
# Names in quotes read back

A quoted identifier is read as the same name by itself, unless a `UESCAPE` clause makes it more than
one token. With what holds of names that strings spell, this tells of every name in quotes whether
it reads back.
-/

open squonk.ast.literal squonk.dialect squonk.dialect.lex_class squonk.document
open squonk.tokenizer.scan
open squonk.tokenizer hiding Token

namespace squonk.parser.name

/-! ## Bodies -/

section
variable {close : Char} {escapes : Bool} {cs body behind more : List Char}

/-- A body ends in its delimiter, and behind it stands the rest. -/
theorem body_ends (h : tokenizer.scan_quoted_body close escapes cs = some (body, behind)) :
    cs = body ++ behind ∧ ∃ front, body = front ++ [close] := by
  fun_induction tokenizer.scan_quoted_body close escapes cs generalizing body
  case case1 => cases h
  case case2 => cases h
  case case3 c hescape d cs ih =>
    obtain ⟨⟨body', behind'⟩, hbody, heq⟩ := Option.map_eq_some_iff.mp h
    cases heq
    obtain ⟨rfl, front, rfl⟩ := ih hbody
    exact ⟨rfl, c :: d :: front, rfl⟩
  case case4 c hescape hc =>
    cases h
    exact ⟨rfl, [], by rw [beq_iff_eq.mp hc]; rfl⟩
  case case5 c hescape hc d cs hd ih =>
    obtain ⟨⟨body', behind'⟩, hbody, heq⟩ := Option.map_eq_some_iff.mp h
    cases heq
    obtain ⟨rfl, front, rfl⟩ := ih hbody
    exact ⟨rfl, c :: d :: front, rfl⟩
  case case6 c hescape hc d cs hd =>
    cases h
    exact ⟨rfl, [], by rw [beq_iff_eq.mp hc]; rfl⟩
  case case7 c cs hescape hc ih =>
    obtain ⟨⟨body', behind'⟩, hbody, heq⟩ := Option.map_eq_some_iff.mp h
    cases heq
    obtain ⟨rfl, front, rfl⟩ := ih hbody
    exact ⟨rfl, c :: front, rfl⟩

/-- A text that is scanned to its end is scanned as far where more follows. -/
theorem body_extends (hwhole : tokenizer.scan_quoted_body close escapes cs = some (cs, []))
    (h : tokenizer.scan_quoted_body close escapes (cs ++ more) = some (body, behind)) :
    cs.length ≤ body.length := by
  fun_induction tokenizer.scan_quoted_body close escapes cs generalizing body
  case case1 => cases hwhole
  case case2 => cases hwhole
  case case3 c hescape d cs ih =>
    obtain ⟨⟨body', behind'⟩, hbody, heq⟩ := Option.map_eq_some_iff.mp hwhole
    cases heq
    rw [List.cons_append, tokenizer.scan_quoted_body.eq_def] at h
    simp only [hescape, if_true, List.cons_append] at h
    obtain ⟨⟨body'', behind''⟩, hbody'', heq⟩ := Option.map_eq_some_iff.mp h
    cases heq
    have hle := ih hbody hbody''
    simp only [List.length_cons]
    omega
  case case4 c hescape hc =>
    obtain ⟨-, front, rfl⟩ := body_ends h
    simp
  case case5 c hescape hc d cs hd ih =>
    obtain ⟨⟨body', behind'⟩, hbody, heq⟩ := Option.map_eq_some_iff.mp hwhole
    cases heq
    rw [List.cons_append, tokenizer.scan_quoted_body.eq_def] at h
    simp only [hescape, hc, hd, if_true, Bool.false_eq_true, if_false, List.cons_append] at h
    obtain ⟨⟨body'', behind''⟩, hbody'', heq⟩ := Option.map_eq_some_iff.mp h
    cases heq
    have hle := ih hbody hbody''
    simp only [List.length_cons]
    omega
  case case6 c hescape hc d cs hd => cases hwhole
  case case7 c cs hescape hc ih =>
    obtain ⟨⟨body', behind'⟩, hbody, heq⟩ := Option.map_eq_some_iff.mp hwhole
    cases heq
    rw [List.cons_append, tokenizer.scan_quoted_body.eq_def] at h
    simp only [hescape, hc, Bool.false_eq_true, if_false] at h
    obtain ⟨⟨body'', behind''⟩, hbody'', heq⟩ := Option.map_eq_some_iff.mp h
    cases heq
    have hle := ih hbody hbody''
    simp only [List.length_cons]
    omega

theorem encode_inj {cs cs' : List Char} (h : encode cs = encode cs') : cs = cs' := by
  rw [← chars_encode cs, h, chars_encode]

end

/-! ## Quoted identifiers -/

section
variable {unicode : Unicode} {features : FeatureSet} {source raw : List Char} {token : Token}
  {c stop : Cursor} {byte : UInt8}

theorem scan_quoted_string_kind {q : Char} (hq : q ∈ quotes) (htext : IsText c.rest)
    (h : scan_quoted c (string_scan features q) = .ok (token, stop)) : token.kind = .String := by
  have hlt : ascii q < 0x80 := by
    simp only [quotes, List.mem_cons, List.not_mem_nil, or_false] at hq
    obtain rfl | rfl | rfl | rfl := hq
    all_goals decide
  unfold scan_quoted at h
  obtain ⟨⟨body, next⟩, hbody, hrest⟩ := bind_eq_ok.mp h
  obtain ⟨rfl, hmoves, -⟩ := scan_quoted_body_ok htext hlt hbody
  dsimp only at hrest
  split at hrest
  · obtain ⟨⟨⟨extended, continued⟩, stop'⟩, hextend, hrest⟩ := bind_eq_ok.mp hrest
    cases hrest
    exact extend_string_run_kind _ (hmoves.isText htext) rfl hextend
  · cases hrest
    rfl

/-- The style of a name in the quotes of an identifier. -/
def ident_style (opening : Char) : QuoteStyle :=
  if opening == '"' then .Double else if opening == '`' then .Backtick else .Bracket

theorem materialize_quoted_ident_cases {quote : QuoteStyle} {text : List Char}
    (h : materialize_quoted_ident raw = some (quote, text)) :
    ∃ opening close tail, raw = opening :: tail ∧ (opening, close) ∈ name_quotes ∧
      opening ∈ quotes ∧ quote = ident_style opening ∧ text = undouble close (inner raw) := by
  unfold materialize_quoted_ident at h
  cases raw with
  | nil => cases h
  | cons opening tail =>
    split at h
    · rename_i hhead
      obtain rfl : opening = '"' := Option.some.inj hhead
      cases h
      exact ⟨_, '"', tail, rfl, by decide, by decide, rfl, rfl⟩
    · rename_i hhead
      obtain rfl : opening = '`' := Option.some.inj hhead
      cases h
      exact ⟨_, '`', tail, rfl, by decide, by decide, rfl, rfl⟩
    · rename_i hhead
      obtain rfl : opening = '[' := Option.some.inj hhead
      cases h
      exact ⟨_, ']', tail, rfl, by decide, by decide, rfl, rfl⟩
    · cases h

theorem name_quote_facts {opening close : Char} (h : (opening, close) ∈ name_quotes) :
    opening.toNat < 0x80 ∧ close.toNat < 0x80 ∧ close ≠ backslash ∧ opening ≠ 'U' ∧
      opening ≠ 'u' := by
  simp only [name_quotes, List.mem_cons, List.not_mem_nil, or_false, Prod.mk.injEq] at h
  obtain ⟨rfl, rfl⟩ | ⟨rfl, rfl⟩ | ⟨rfl, rfl⟩ := h
  all_goals exact ⟨by decide, by decide, by decide, by decide, by decide⟩

theorem name_quote_close {opening close close' : Char} (h : (opening, close) ∈ name_quotes)
    (h' : (opening, close') ∈ name_quotes) : close = close' := by
  simp only [name_quotes, List.mem_cons, List.not_mem_nil, or_false, Prod.mk.injEq] at h
  obtain ⟨rfl, rfl⟩ | ⟨rfl, rfl⟩ | ⟨rfl, rfl⟩ := h
  all_goals
    simp [name_quotes] at h'
    exact h'.symm

theorem not_unicode_ident {opening : Char} (hupper : opening ≠ 'U') (hlower : opening ≠ 'u')
    (cs : List Char) : is_unicode_ident (opening :: cs) = false := by
  unfold is_unicode_ident
  split
  · rename_i heq
    cases heq
    simp [hupper, hlower]
  · rfl

theorem read_ident_text {opening close : Char} (hquote : (opening, close) ∈ name_quotes)
    (text : List Char) :
    read_name (encode (quoted_text opening close text))
        ⟨.QuotedIdent, ⟨0, (encode (quoted_text opening close text)).length⟩⟩ =
      some ⟨text, ident_style opening, ⟨0, (encode (quoted_text opening close text)).length⟩⟩ := by
  obtain ⟨-, -, -, hupper, hlower⟩ := name_quote_facts hquote
  have hplain : is_unicode_ident (quoted_text opening close text) = false :=
    not_unicode_ident hupper hlower _
  have hvalue : undouble close (inner (quoted_text opening close text)) = text := by
    rw [inner_quoted_text, undouble_double]
  have hname : materialize_quoted_ident (quoted_text opening close text) =
      some (ident_style opening, text) := by
    simp only [name_quotes, List.mem_cons, List.not_mem_nil, or_false, Prod.mk.injEq] at hquote
    obtain ⟨rfl, rfl⟩ | ⟨rfl, rfl⟩ | ⟨rfl, rfl⟩ := hquote
    all_goals
      conv_rhs => rw [← hvalue]
      rfl
  unfold read_name parse_quoted_ident
  simp [get_whole, hplain, hname]

/-- What a lexeme of a source is by itself is told by its body. -/
theorem body_of_scanned {behind tail : List Char} {opening close : Char} {quoting : QuoteScan}
    {from_ : Cursor} (hraw : stop.rest = encode behind) (hopening : opening.toNat < 0x80)
    (hrest : from_.rest = encode (opening :: (tail ++ behind)))
    (hclose : quoting.close = ascii close) (hascii : close.toNat < 0x80) (hback : close ≠ backslash)
    {start : Nat}
    (h : scan.scan_quoted_body from_ start quoting = .ok (token, stop)) :
    tokenizer.scan_quoted_body close quoting.backslash (tail ++ behind) = some (tail, behind) ∧
      closed quoting start (from_.pos + 1) ⟨from_.pos + 1 + (encode tail).length, encode behind⟩ =
        .ok (token, stop) := by
  obtain ⟨body, rest, hbody, hstop, hclosed⟩ := scan_body_ok hopening hrest hclose hascii hback h
  have hbehind : rest = behind := by
    rw [hstop] at hraw
    exact encode_inj hraw
  subst hbehind
  have hsplit : body = tail := by
    exact (List.append_cancel_right (body_ends hbody).1).symm
  subst hsplit
  rw [← hstop]
  exact ⟨hbody, hclosed⟩

theorem closed_eq_ok {quoting : QuoteScan} {start body_start : Nat} {scanned : Token × Cursor}
    (h : closed quoting start body_start stop = .ok scanned) :
    (quoting.kind == .QuotedIdent && !quoting.allow_zero_length &&
      stop.pos == body_start + 1) = false ∧
      scanned = (⟨quoting.kind, ⟨start, stop.pos⟩⟩, stop) := by
  unfold closed at h
  split at h
  · cases h
  · rename_i hzero
    exact ⟨Bool.eq_false_of_not_eq_true hzero, (Except.ok.inj h).symm⟩

theorem plain_ident_reads_back_iff (hquotes : features.identifier_quotes ⊆ name_quotes)
    (hat : ScannedAt unicode features source token c stop byte) (hkind : token.kind = .QuotedIdent)
    (hget : get (encode source) token.span = some raw) {quote : QuoteStyle} {text : List Char}
    (hname : materialize_quoted_ident raw = some (quote, text)) {ident : Ident}
    (hident : ident = ⟨text, quote, token.span⟩) :
    ReadsBack unicode features (ident_text (encode source) ident) ident ↔
      (∀ d ∈ (ident_text (encode source) ident).head?,
        features.has_byte_class (ascii d) CLASS_WHITESPACE = false) ∧
      (encode (ident_text (encode source) ident)).length ≤ 2 ^ 32 - 1 := by
  obtain ⟨opening, close, tail, rfl, hquote, hopening, rfl, htext⟩ :=
    materialize_quoted_ident_cases hname
  obtain ⟨hascii, hascii', hback, hupper, hlower⟩ := name_quote_facts hquote
  obtain ⟨behind, hraw⟩ := raw_of_scanned hat hget
  have hbyte := hraw.byte_eq hat.peek hascii rfl
  have hquoted := is_quoted_of_kind hkind rfl
  have hstrings : quotes_strings features opening = false := by
    by_contra hstrings
    rw [Bool.not_eq_false] at hstrings
    have hscan := hat.scanned
    rw [hbyte, scan_token_string hopening hstrings] at hscan
    rw [scan_quoted_string_kind hopening hat.within.isText hscan] at hkind
    cases hkind
  obtain ⟨close', hquote', hopens, hscan⟩ := ident_of_scanned hquotes hat hopening hbyte hquoted
    hstrings
  obtain rfl := name_quote_close hquote hquote'
  obtain ⟨hbody, hclosed⟩ :=
    body_of_scanned hraw.after hascii hraw.here rfl hascii' hback hscan
  obtain ⟨-, front, rfl⟩ := body_ends hbody
  have hinner : inner (opening :: (front ++ [close])) = front := by simp [inner]
  rw [hinner] at htext
  have hzero : features.identifier_syntax.empty_quoted_identifiers = false → text ≠ [] := by
    intro hallow hnil
    rw [hnil] at htext
    obtain rfl := undouble_eq_nil htext.symm
    have hempty := (closed_eq_ok hclosed).1
    rw [show encode ([] ++ [close]) = [⟨ascii close, some close⟩] from encode_ascii [] hascii'] at hempty
    simp [ident_scan, hallow] at hempty
  have hnul : Char.ofNat 0 ∉ text := by
    rw [htext]
    intro hmem
    refine hraw.nul hquoted (.tail _ (List.mem_append_left _ (mem_of_mem_undouble hmem)))
  have hrendered : ident_text (encode source) ident = quoted_text opening close text := by
    rw [hident]
    simp only [name_quotes, List.mem_cons, List.not_mem_nil, or_false, Prod.mk.injEq] at hquote
    obtain ⟨rfl, rfl⟩ | ⟨rfl, rfl⟩ | ⟨rfl, rfl⟩ := hquote
    all_goals rfl
  rw [hrendered]
  constructor
  · rintro ⟨read_token, read, htokens, hspan, -, -, -⟩
    obtain ⟨byte', stop', hat', hblank⟩ := tokenize_with_first htokens (by rw [hspan])
    refine ⟨fun d hd => ?_, length_le_of_tokenize htokens⟩
    obtain rfl : opening = d := Option.some.inj hd
    have hpeek := hat'.peek
    rw [show (Cursor.new (encode (quoted_text opening close text))).peek = some (ascii opening) from
      peek_at_start _ hascii] at hpeek
    rw [Option.some.inj hpeek]
    exact hblank
  · rintro ⟨hblank, hfits⟩
    refine ⟨_, _, tokenize_ident_text hopening hquote hstrings hopens (hblank _ rfl) hfits hnul hzero,
      rfl, read_ident_text hquote text, ?_, ?_⟩
    · rw [hident]
    · rw [hident]

/-! ## Unicode identifiers -/

/-- What a Unicode identifier is scanned by. -/
def unicode_scan (features : FeatureSet) : QuoteScan :=
  ⟨ascii '"', .QuotedIdent, .UnterminatedQuotedIdent, false,
    features.identifier_syntax.empty_quoted_identifiers⟩

theorem peeks_of_unicode {marker : Char} (hmarker : marker = 'U' ∨ marker = 'u') {cs : List Char}
    (hrest : c.rest = encode (marker :: '&' :: '"' :: cs)) :
    c.peek_nth 1 = some (ascii '&') ∧ c.peek_nth 2 = some (ascii '"') ∧
      (c.advance_bytes 2).rest = encode ('"' :: cs) := by
  have hascii : marker.toNat < 0x80 := by
    obtain rfl | rfl := hmarker
    all_goals decide
  have hand : ('&' : Char).toNat < 0x80 := by decide
  have hquote : ('"' : Char).toNat < 0x80 := by decide
  rw [encode_ascii _ hascii, encode_ascii _ hand] at hrest
  refine ⟨?_, ?_, ?_⟩
  · rw [Cursor.peek_nth, hrest]
    rfl
  · rw [Cursor.peek_nth, hrest, encode_ascii _ hquote]
    rfl
  · rw [Cursor.advance_bytes, hrest]
    rfl

/-- Neither what follows the marker is an apostrophe nor what follows the ampersand. -/
theorem no_apostrophe : (some (ascii '&') == some (ascii single_quote)) = false ∧
    (some (ascii '"') == some (ascii single_quote)) = false := ⟨rfl, rfl⟩

theorem scan_token_unicode {marker : Char} (hmarker : marker = 'U' ∨ marker = 'u') {cs : List Char}
    (hstrings : features.string_literals.unicode_strings = true)
    (hrest : c.rest = encode (marker :: '&' :: '"' :: cs)) :
    scan.scan_token unicode features c (ascii marker) =
      scan.scan_quoted_body (c.advance_bytes 2) c.pos (unicode_scan features) := by
  obtain ⟨hand, hquote, -⟩ := peeks_of_unicode hmarker hrest
  have hmark : (ascii marker == ascii 'U' || ascii marker == ascii ('U' : Char).toLower) = true := by
    obtain rfl | rfl := hmarker
    all_goals rfl
  have hmarked : scan_marked unicode features c (ascii marker) =
      some (scan_unicode_ident features c) := by
    unfold scan_marked
    simp only [hand, hquote, hstrings, hmark, no_apostrophe, beq_self_eq_true, Bool.and_true,
      Bool.and_false, Bool.false_eq_true, if_false, if_true]
  unfold scan.scan_token
  rw [hmarked]
  rfl

/-- Where Unicode strings are none, no quoted lexeme starts at the marker. -/
theorem not_quoted_of_unicode (hquotes : features.identifier_quotes ⊆ name_quotes) {marker : Char}
    (hmarker : marker = 'U' ∨ marker = 'u')
    (hstrings : features.string_literals.unicode_strings = false) {cs : List Char}
    (hrest : c.rest = encode (marker :: '&' :: '"' :: cs))
    (h : scan.scan_token unicode features c (ascii marker) = .ok (token, stop)) :
    token.kind.is_quoted = false := by
  obtain ⟨hand, hquote, -⟩ := peeks_of_unicode hmarker hrest
  have hascii : marker.toNat < 0x80 := by
    obtain rfl | rfl := hmarker
    all_goals decide
  have hcharset : (ascii marker == ascii '_') = false := by
    obtain rfl | rfl := hmarker
    all_goals rfl
  have hmarked : scan_marked unicode features c (ascii marker) = none := by
    unfold scan_marked
    simp only [hand, hquote, hstrings, hcharset, no_apostrophe, Bool.and_false, Bool.false_and,
      Bool.false_eq_true, if_false]
  have hopens : opening_identifier_quote features (ascii marker) = none := by
    rw [Option.eq_none_iff_forall_ne_some]
    intro close hclose
    obtain ⟨closing, hmem, -⟩ := opening_identifier_quote_eq hquotes hascii hclose
    obtain ⟨-, -, -, hupper, hlower⟩ := name_quote_facts hmem
    exact hmarker.elim hupper hlower
  have hdelimited : scan_delimited features c (ascii marker) = none := by
    unfold scan_delimited
    simp only [hopens]
    obtain rfl | rfl := hmarker
    all_goals rfl
  have hsigil : scan_sigil unicode features c (ascii marker) = none := by
    obtain rfl | rfl := hmarker
    all_goals rfl
  unfold scan.scan_token at h
  rw [hmarked, hdelimited, hsigil] at h
  exact scan_class_kind h

theorem unicode_ident_cases (h : is_unicode_ident raw = true) :
    ∃ marker tail, raw = marker :: '&' :: '"' :: tail ∧ (marker = 'U' ∨ marker = 'u') := by
  unfold is_unicode_ident at h
  split at h
  · rename_i marker tail
    exact ⟨marker, tail, rfl, by simpa using h⟩
  · cases h

theorem scan_unicode_of_scanned (hquotes : features.identifier_quotes ⊆ name_quotes)
    (hat : ScannedAt unicode features source token c stop byte)
    (hquoted : token.kind.is_quoted = true) {marker : Char} (hmarker : marker = 'U' ∨ marker = 'u')
    {cs : List Char} (hrest : c.rest = encode (marker :: '&' :: '"' :: cs)) (hbyte : byte = ascii marker) :
    features.string_literals.unicode_strings = true ∧
      scan.scan_quoted_body (c.advance_bytes 2) c.pos (unicode_scan features) = .ok (token, stop) := by
  have hscan := hat.scanned
  rw [hbyte] at hscan
  have hstrings : features.string_literals.unicode_strings = true := by
    by_contra hstrings
    rw [Bool.not_eq_true] at hstrings
    rw [not_quoted_of_unicode hquotes hmarker hstrings hrest hscan] at hquoted
    cases hquoted
  rw [scan_token_unicode hmarker hstrings hrest] at hscan
  exact ⟨hstrings, hscan⟩

theorem read_unicode_text (hunicode : is_unicode_ident raw = true) {value : List Char}
    (hvalue : materialize_unicode_ident raw = some value) :
    read_name (encode raw) ⟨.QuotedIdent, ⟨0, (encode raw).length⟩⟩ =
      some ⟨value, .UnicodeDouble, ⟨0, (encode raw).length⟩⟩ := by
  unfold read_name parse_quoted_ident consume_optional_uescape
  simp [get_whole, hunicode, hvalue]

/-- A Unicode identifier reads back if and only if nothing behind it belongs to it. -/
theorem unicode_ident_reads_back_iff (hquotes : features.identifier_quotes ⊆ name_quotes)
    (hat : ScannedAt unicode features source token c stop byte) (hkind : token.kind = .QuotedIdent)
    (hget : get (encode source) token.span = some raw) (hunicode : is_unicode_ident raw = true)
    {span : Span} (hstart : span.start = token.span.start) (hstop : token.span.stop ≤ span.stop)
    {text value : List Char} (htext : get (encode source) span = some text)
    (hvalue : materialize_unicode_ident text = some value) {ident : Ident}
    (hident : ident = ⟨value, .UnicodeDouble, span⟩) :
    ReadsBack unicode features text ident ↔
      (∀ d ∈ text.head?, features.has_byte_class (ascii d) CLASS_WHITESPACE = false) ∧
      (encode text).length ≤ 2 ^ 32 - 1 ∧ span.stop = token.span.stop := by
  obtain ⟨marker, tail, rfl, hmarker⟩ := unicode_ident_cases hunicode
  have hascii : marker.toNat < 0x80 ∧ ascii marker ∉ comment_leads := by
    obtain rfl | rfl := hmarker
    all_goals exact ⟨by decide, by decide⟩
  have hquote : ('"' : Char).toNat < 0x80 ∧ ('"' : Char) ≠ backslash := ⟨by decide, by decide⟩
  have hquoted := is_quoted_of_kind hkind rfl
  obtain ⟨behind, hraw⟩ := raw_of_scanned hat hget
  have hbyte := hraw.byte_eq hat.peek hascii.1 rfl
  have hhere := hraw.here
  rw [List.cons_append, List.cons_append, List.cons_append] at hhere
  obtain ⟨hstrings, hscan⟩ := scan_unicode_of_scanned hquotes hat hquoted hmarker hhere hbyte
  obtain ⟨hbody, hclosed⟩ := body_of_scanned hraw.after hquote.1 (peeks_of_unicode hmarker hhere).2.2
    rfl hquote.1 hquote.2 hscan
  -- the text is that of the token and what of the source belongs to it besides
  obtain ⟨more, behind', rfl, rfl, hmore⟩ : ∃ more behind',
      text = marker :: '&' :: '"' :: tail ++ more ∧ behind = more ++ behind' ∧
        (more = [] ↔ span.stop = token.span.stop) := by
    obtain ⟨front, behind', hsource, hfront, hlength⟩ := get_split htext
    have hwithin := hat.within
    rw [hsource] at hwithin
    have hpos : c.pos = (encode front).length := by
      rw [hfront, hstart, hat.span]
    have hsame := encode_inj (hraw.here.symm.trans (rest_of_within hwithin hpos))
    have hsize : token.span.stop = token.span.start + (encode (marker :: '&' :: '"' :: tail)).length := by
      rw [hat.span]
      exact hraw.stop
    obtain ⟨more, heq, hbehind⟩ | ⟨more, heq, hbehind⟩ := List.append_eq_append_iff.mp hsame
    · refine ⟨more, behind', heq, hbehind, ?_⟩
      rw [heq, encode_append, List.length_append] at hlength
      constructor
      · rintro rfl
        have hzero : (encode ([] : List Char)).length = 0 := rfl
        omega
      · intro hends
        exact encode_eq_nil (List.eq_nil_of_length_eq_zero (by omega))
    · have hsizes := congrArg (fun cs => (encode cs).length) heq
      simp only [encode_append, List.length_append] at hsizes
      have hnil : more = [] := encode_eq_nil (List.eq_nil_of_length_eq_zero (by omega))
      rw [hnil, List.append_nil] at heq
      rw [hnil, List.nil_append] at hbehind
      refine ⟨[], behind', by rw [List.append_nil, heq], hbehind.symm, fun _ => ?_, fun _ => rfl⟩
      rw [hlength, ← heq, hsize, hstart]
  simp only [List.cons_append] at htext hvalue ⊢
  rw [← hmore]
  constructor
  · rintro ⟨read_token, read, htokens, hspan, hread, -, -⟩
    obtain ⟨byte', stop', hat', hblank⟩ := tokenize_with_first htokens (by rw [hspan])
    have hbyte' : byte' = ascii marker := by
      have hpeek := hat'.peek
      rw [show (Cursor.new (encode (marker :: '&' :: '"' :: (tail ++ more)))).peek =
        some (ascii marker) from peek_at_start _ hascii.1] at hpeek
      exact (Option.some.inj hpeek).symm
    refine ⟨fun d hd => ?_, length_le_of_tokenize htokens, ?_⟩
    · obtain rfl : marker = d := Option.some.inj hd
      rw [← hbyte']
      exact hblank
    · have hhere' : (Cursor.new (encode (marker :: '&' :: '"' :: (tail ++ more)))).rest =
          encode (marker :: '&' :: '"' :: (tail ++ more)) := rfl
      obtain ⟨-, hscan'⟩ := scan_unicode_of_scanned hquotes hat' (read_name_kind hread) hmarker hhere'
        hbyte'
      have hend : stop'.rest = encode ([] : List Char) := by
        rw [hat'.rest_eq_nil hspan]
        rfl
      have hopens : ((Cursor.new (encode (marker :: '&' :: '"' :: (tail ++ more)))).advance_bytes
          2).rest = encode ('"' :: ((tail ++ more) ++ [])) := by
        rw [List.append_nil]
        exact (peeks_of_unicode hmarker hhere').2.2
      obtain ⟨hwhole, -⟩ := body_of_scanned hend hquote.1 hopens rfl hquote.1 hquote.2 hscan'
      rw [List.append_nil] at hwhole
      rw [← List.append_assoc] at hbody
      have hle := body_extends hwhole hbody
      rw [List.length_append] at hle
      exact List.eq_nil_of_length_eq_zero (by omega)
  · rintro ⟨hblank, hfits, rfl⟩
    rw [List.append_nil] at htext hvalue hblank hfits ⊢
    have hzero := (closed_eq_ok hclosed).1
    have hself : tokenizer.scan_quoted_body '"' false tail = some (tail, []) :=
      scan_quoted_body_self hbody
    have hhere' : (Cursor.new (encode (marker :: '&' :: '"' :: tail))).rest =
        encode (marker :: '&' :: '"' :: tail) := rfl
    have hlength : (encode (marker :: '&' :: '"' :: tail)).length = 0 + 2 + 1 + (encode tail).length := by
      rw [encode_ascii _ hascii.1, encode_ascii _ (show ('&' : Char).toNat < 0x80 by decide),
        encode_ascii _ hquote.1]
      simp only [List.length_cons]
      omega
    have hsize : ((unicode_scan features).kind == .QuotedIdent &&
        !(unicode_scan features).allow_zero_length &&
          0 + 2 + 1 + (encode tail).length == 0 + 2 + 1 + 1) = false := by
      rw [← hzero]
      congr 1
      rw [Bool.eq_iff_iff, beq_iff_eq, beq_iff_eq]
      simp only [Cursor.advance_bytes]
      omega
    have hone : scan.scan_token unicode features (.new (encode (marker :: '&' :: '"' :: tail)))
        (ascii marker) = .ok (⟨.QuotedIdent, ⟨0, (encode (marker :: '&' :: '"' :: tail)).length⟩⟩,
          ⟨(encode (marker :: '&' :: '"' :: tail)).length, []⟩) := by
      rw [scan_token_unicode hmarker hstrings hhere',
        scan_body_encode hquote.1 (peeks_of_unicode hmarker hhere').2.2 rfl hquote.1 hquote.2,
        show (unicode_scan features).backslash = false from rfl, hself, hlength]
      simp only [closed, Cursor.advance_bytes, Cursor.new, hsize, Bool.false_eq_true, if_false]
      rfl
    have hnul : (encode (marker :: '&' :: '"' :: tail)).any (·.byte == 0) = false := by
      rw [any_nul_encode, ← Bool.not_eq_true, List.contains_iff_mem]
      exact hraw.nul hquoted
    have htokens := tokenize_with_one (peek_at_start _ hascii.1) (hblank _ rfl) hascii.2 hone hnul hfits
    refine ⟨_, _, htokens, rfl, read_unicode_text hunicode hvalue, ?_, ?_⟩
    · rw [hident]
    · rw [hident]

theorem consume_uescape_cases {span span' : Span} {rest : List Token}
    (h : consume_optional_uescape (encode source) span rest = some span') :
    rest.head?.any is_uescape = false ∧ span' = span ∨
      rest.head?.any is_uescape = true ∧ ∃ uescape escape behind,
        rest = uescape :: escape :: behind ∧ span' = ⟨span.start, escape.span.stop⟩ := by
  unfold consume_optional_uescape at h
  split at h
  · exact .inl ⟨rfl, (Option.some.inj h).symm⟩
  · rename_i uescape rest
    split at h
    · rename_i hclause
      split at h
      · cases h
      · rename_i escape behind
        refine .inr ⟨hclause, uescape, escape, behind, rfl, ?_⟩
        split at h
        · cases h
        obtain ⟨argument, -, h⟩ := Option.bind_eq_some_iff.mp h
        split at h
        · cases h
        · exact (Option.some.inj h).symm
    · rename_i hclause
      exact .inl ⟨Bool.eq_false_of_not_eq_true hclause, (Option.some.inj h).symm⟩

end

/-! ## Every name in quotes -/

section
variable (unicode : Unicode) {features : FeatureSet} {source : List Char} {tokens : List Token}

theorem quoted_reads_back_iff (hquotes : features.identifier_quotes ⊆ name_quotes)
    (htokens : tokenize_with unicode source features = .ok tokens) {token : Token}
    {rest : List Token} (hin : token :: rest <:+ tokens) {ident : Ident}
    (hident : parse_quoted_ident (encode source) token rest = some ident) :
    ReadsBack unicode features (ident_text (encode source) ident) ident ↔
      (Spelling.quoted token rest).Plain features (encode source)
        (ident_text (encode source) ident) := by
  obtain ⟨hpairs, hscanned⟩ := tokenize_with_scanned htokens
  obtain ⟨-, c, stop, byte, hat⟩ := hscanned token (hin.subset (.head _))
  unfold parse_quoted_ident at hident
  split at hident
  · cases hident
  rename_i hkind
  have hkind : token.kind = .QuotedIdent := by simpa using hkind
  obtain ⟨raw, hget, hident⟩ := Option.bind_eq_some_iff.mp hident
  cases hunicode : is_unicode_ident raw with
  | false =>
    simp only [hunicode, Bool.false_eq_true, if_false] at hident
    obtain ⟨⟨quote, text⟩, hname, hident⟩ := Option.bind_eq_some_iff.mp hident
    refine (plain_ident_reads_back_iff hquotes hat hkind hget hname
      (Option.some.inj hident).symm).trans ⟨fun h => ⟨h.1, h.2, ?_⟩, fun h => ⟨h.opens, h.fits⟩⟩
    intro raw' hraw' hunicode'
    rw [hget] at hraw'
    cases hraw'
    rw [hunicode] at hunicode'
    cases hunicode'
  | true =>
    simp only [hunicode, if_true] at hident
    obtain ⟨span, hspan, hident⟩ := Option.bind_eq_some_iff.mp hident
    obtain ⟨text, htext, hident⟩ := Option.bind_eq_some_iff.mp hident
    obtain ⟨value, hvalue, hident⟩ := Option.bind_eq_some_iff.mp hident
    have hident : ident = ⟨value, .UnicodeDouble, span⟩ := (Option.some.inj hident).symm
    have hrendered : ident_text (encode source) ident = text := by
      rw [hident]
      simp [ident_text, htext]
    have hclause : (span.start = token.span.start ∧ token.span.stop ≤ span.stop) ∧
        (span.stop = token.span.stop ↔ rest.head?.any is_uescape = false) := by
      obtain ⟨hnone, rfl⟩ | ⟨hsome, uescape, escape, behind, rfl, rfl⟩ := consume_uescape_cases hspan
      · exact ⟨⟨rfl, Nat.le_refl _⟩, fun _ => hnone, fun _ => rfl⟩
      · -- the clause stands behind the identifier
        have hpair := hpairs.sublist hin.sublist
        have hle := (List.pairwise_cons.mp hpair).1 escape (.tail _ (.head _))
        have hlt := (hscanned escape (hin.subset (.tail _ (.tail _ (.head _))))).1
        refine ⟨⟨rfl, by simp only; omega⟩, fun heq => ?_, fun hnone => ?_⟩
        · simp only at heq
          omega
        · rw [hsome] at hnone
          cases hnone
    rw [hrendered]
    refine (unicode_ident_reads_back_iff hquotes hat hkind hget hunicode hclause.1.1 hclause.1.2
      htext hvalue hident).trans ?_
    rw [hclause.2]
    constructor
    · rintro ⟨hopens, hfits, hnone⟩
      exact ⟨hopens, hfits, fun _ _ _ => hnone⟩
    · rintro ⟨hopens, hfits, hsettled⟩
      exact ⟨hopens, hfits, hsettled raw hget hunicode⟩

/-- A name in quotes reads back if and only if its text is plain. -/
theorem name_reads_back_iff (hquotes : features.identifier_quotes ⊆ name_quotes)
    (htokens : tokenize_with unicode source features = .ok tokens) (spelling : Spelling)
    (hin : spelling.In tokens) (ident : Ident)
    (hident : spelling.ident (encode source) = some ident) :
    ReadsBack unicode features (ident_text (encode source) ident) ident ↔
      spelling.Plain features (encode source) (ident_text (encode source) ident) := by
  cases spelling with
  | quoted token rest => exact quoted_reads_back_iff unicode hquotes htokens hin hident
  | string_alias token =>
    obtain ⟨-, c, stop, byte, hat⟩ := (tokenize_with_scanned htokens).2 token hin
    exact alias_reads_back_iff hquotes hat hident
  | name_sconst literal => exact constant_reads_back_iff hident

end

/-- A number and its alias, in a string without escapes. -/
def quoted_alias : List Char := "1 'it''s'".toList

theorem name_reads_back_quoted :
    ReadsBack asciiLetters .MYSQL
        (ident_text (encode quoted_alias) ⟨"it's".toList, .Single, ⟨2, 9⟩⟩)
        ⟨"it's".toList, .Single, ⟨2, 9⟩⟩ ↔
      (Spelling.string_alias ⟨.String, ⟨2, 9⟩⟩).Plain .MYSQL (encode quoted_alias)
        (ident_text (encode quoted_alias) ⟨"it's".toList, .Single, ⟨2, 9⟩⟩) := by
  have htokens : tokenize_with asciiLetters quoted_alias .MYSQL =
      .ok [⟨.Number, ⟨0, 1⟩⟩, ⟨.String, ⟨2, 9⟩⟩] := by
    decide +kernel
  exact name_reads_back_iff asciiLetters (by decide) htokens (.string_alias ⟨.String, ⟨2, 9⟩⟩)
    (.tail _ (.head _)) _ (by decide +kernel)

/-- An alias whose string escapes an apostrophe. -/
def escaped_alias : List Char := "SELECT 1 AS 'a\\'b'".toList

theorem scan_select : scan_token asciiLetters .MYSQL (.new (encode escaped_alias)) (ascii 'S') =
    .ok (⟨.Keyword 678, ⟨0, 6⟩⟩, ⟨6, (encode escaped_alias).drop 6⟩) := by
  have hstop : eat_identifier_continue asciiLetters .MYSQL ⟨1, (encode escaped_alias).drop 1⟩ =
      .ok ⟨6, (encode escaped_alias).drop 6⟩ := by
    rfl
  have hslot : interner.KEYWORDS[678]? = some "select" := by decide +kernel
  rw [scan_token_word rfl rfl rfl rfl]
  exact scan_word_keyword rfl hstop hslot rfl

theorem scan_as : scan_token asciiLetters .MYSQL ⟨9, (encode escaped_alias).drop 9⟩ (ascii 'A') =
    .ok (⟨.Keyword 29, ⟨9, 11⟩⟩, ⟨11, (encode escaped_alias).drop 11⟩) := by
  have hstop : eat_identifier_continue asciiLetters .MYSQL ⟨10, (encode escaped_alias).drop 10⟩ =
      .ok ⟨11, (encode escaped_alias).drop 11⟩ := by
    rfl
  have hslot : interner.KEYWORDS[29]? = some "as" := by decide +kernel
  rw [scan_token_word rfl rfl rfl rfl]
  exact scan_word_keyword rfl hstop hslot rfl

theorem escaped_alias_tokens : tokenize_with asciiLetters escaped_alias .MYSQL =
    .ok [⟨.Keyword 678, ⟨0, 6⟩⟩, ⟨.Number, ⟨7, 8⟩⟩, ⟨.Keyword 29, ⟨9, 11⟩⟩,
      ⟨.String, ⟨12, 18⟩⟩] := by
  -- One token at a time: looking a word up among the keywords is what takes long to evaluate.
  have hselect : skip_trivia .MYSQL NoTrivia (encode escaped_alias)
      (.new (encode escaped_alias)) () ⟨none⟩ =
        .ok (.new (encode escaped_alias), (), ⟨none⟩) := by
    decide +kernel
  have hone : next_token asciiLetters .MYSQL NoTrivia (encode escaped_alias)
      ⟨6, (encode escaped_alias).drop 6⟩ () ⟨none⟩ =
        .ok (some ⟨.Number, ⟨7, 8⟩⟩, ⟨8, (encode escaped_alias).drop 8⟩, (), ⟨none⟩) := by
    decide +kernel
  have has : skip_trivia .MYSQL NoTrivia (encode escaped_alias)
      ⟨8, (encode escaped_alias).drop 8⟩ () ⟨none⟩ =
        .ok (⟨9, (encode escaped_alias).drop 9⟩, (), ⟨none⟩) := by
    decide +kernel
  have halias : next_token asciiLetters .MYSQL NoTrivia (encode escaped_alias)
      ⟨11, (encode escaped_alias).drop 11⟩ () ⟨none⟩ =
        .ok (some ⟨.String, ⟨12, 18⟩⟩, ⟨18, []⟩, (), ⟨none⟩) := by
    decide +kernel
  have hend : next_token asciiLetters .MYSQL NoTrivia (encode escaped_alias) ⟨18, []⟩ ()
      ⟨none⟩ = .ok (none, ⟨18, []⟩, (), ⟨none⟩) := by
    decide +kernel
  have hlength : (encode escaped_alias).length + 1 = 14 + 1 + 1 + 1 + 1 + 1 := rfl
  rw [tokenize_with, collect_all, if_neg (by decide), hlength]
  rw [collect_some (next_token_eq hselect rfl scan_select rfl), collect_some hone,
    collect_some (next_token_eq has rfl scan_as rfl), collect_some halias, collect_none hend]
  rfl

/-- The text of the alias is `'a\''b'`, whose string goes on behind its end. -/
theorem name_not_read_back :
    ¬ ∀ (unicode : Unicode) (dialect : BuiltinDialect) (source : List Char) (tokens : List Token)
        (spelling : Spelling) (ident : Ident),
      tokenize_with unicode source dialect.features = .ok tokens → spelling.In tokens →
        spelling.ident (encode source) = some ident →
        ReadsBack unicode dialect.features (ident_text (encode source) ident) ident := by
  intro h
  have hident : parse_string_alias_ident (encode escaped_alias) ⟨.String, ⟨12, 18⟩⟩ =
      some ⟨"a\\'b".toList, .Single, ⟨12, 18⟩⟩ := by
    decide +kernel
  obtain ⟨token, read, hread, -⟩ := h asciiLetters .MySql escaped_alias _
    (.string_alias ⟨.String, ⟨12, 18⟩⟩) _ escaped_alias_tokens
    (.tail _ (.tail _ (.tail _ (.head _)))) hident
  have hfails : tokenize_with asciiLetters (ident_text (encode escaped_alias)
      ⟨"a\\'b".toList, .Single, ⟨12, 18⟩⟩) .MYSQL =
      .error (.error ⟨.UnterminatedString, ⟨5, 7⟩⟩) := by
    decide +kernel
  rw [show BuiltinDialect.MySql.features = .MYSQL from rfl, hfails] at hread
  cases hread

end squonk.parser.name
