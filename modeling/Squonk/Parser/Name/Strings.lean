import Mathlib
import Squonk.Parser.Name.Alone
import Squonk.Tokenizer.Single

/-!
# Names that strings spell

A name is rendered with its delimiters doubled. The text of a name that a string spells is read as
the same name by itself, except where a backslash escapes a delimiter in a dialect that has such
escapes.
-/

open squonk.ast.literal squonk.dialect squonk.dialect.lex_class squonk.document
open squonk.tokenizer.scan
open squonk.tokenizer hiding Token

namespace squonk.parser.name

/-! ## Slices -/

section
variable {source text cs front behind : List Char} {span : Span}

theorem get_split (h : get (encode source) span = some text) :
    ∃ front behind, source = front ++ (text ++ behind) ∧ (encode front).length = span.start ∧
      span.stop = span.start + (encode text).length := by
  unfold ast.literal.get at h
  split at h
  · rename_i hspan
    obtain ⟨hle, hstart, hstop⟩ := hspan
    obtain ⟨front, middle, rfl, hfront⟩ := split_at_boundary hstart
    have hmiddle : is_char_boundary (encode middle) (span.stop - span.start) = true := by
      simp only [is_char_boundary, encode_append, List.length_append, List.drop_append,
        Bool.and_eq_true, decide_eq_true_eq] at hstop ⊢
      rw [List.drop_eq_nil_of_le (by omega), List.nil_append, hfront] at hstop
      exact ⟨by omega, hstop.2⟩
    obtain ⟨text', behind, rfl, hlength⟩ := split_at_boundary hmiddle
    have htext : text' = text := by
      rw [encode_append, encode_append, ← hfront, List.drop_left, hfront, ← hlength, List.take_left,
        chars_encode] at h
      exact Option.some.inj h
    subst htext
    exact ⟨front, behind, rfl, hfront, by omega⟩
  · cases h

theorem get_whole (text : List Char) :
    get (encode text) ⟨0, (encode text).length⟩ = some text := by
  have hzero : is_char_boundary (encode text) 0 = true := by
    simp [is_char_boundary, whole_encode]
  have hend : is_char_boundary (encode text) (encode text).length = true := by
    simp [is_char_boundary]
  unfold ast.literal.get
  rw [if_pos ⟨Nat.zero_le _, hzero, hend⟩, List.drop_zero, Nat.sub_zero, List.take_length,
    chars_encode]

theorem rest_of_within {c : Cursor} (h : Within (front ++ cs) c)
    (hpos : c.pos = (encode front).length) : c.rest = encode cs := by
  obtain ⟨passed, hpassed⟩ := h.suffix
  have htotal := h.total
  rw [encode_append, List.length_append] at htotal
  have hlength : passed.length = (encode front).length := by
    have hsize := congrArg List.length hpassed
    simp only [Cursor.new, encode_append, List.length_append] at hsize
    omega
  rw [Cursor.new, encode_append] at hpassed
  exact (List.append_inj hpassed hlength).2

end

/-! ## Names as they are spelled -/

/-- How a name is spelled in quotes: as a quoted identifier, which the tokens behind it can belong
to, as a string, or as a string whose value it is. -/
inductive Spelling
  | quoted (token : Token) (rest : List Token)
  | string_alias (token : Token)
  | name_sconst (literal : Literal)

namespace Spelling

def In (tokens : List Token) : Spelling → Prop
  | .quoted token rest => token :: rest <:+ tokens
  | .string_alias token => token ∈ tokens
  | .name_sconst _ => True

def ident (source : List SourceByte) : Spelling → Option Ident
  | .quoted token rest => parse_quoted_ident source token rest
  | .string_alias token => parse_string_alias_ident source token
  | .name_sconst literal => parse_name_sconst_ident source literal

/-- What the text between the delimiters has to be. -/
def Settled (features : FeatureSet) (source : List SourceByte) : Spelling → Prop
  | .quoted token rest =>
    ∀ raw, get source token.span = some raw → is_unicode_ident raw = true →
      rest.head?.any is_uescape = false
  | .string_alias token =>
    features.string_literals.backslash_escapes = true →
      ∀ raw, get source token.span = some raw →
        settled (raw.head?.getD single_quote) (inner raw) = true
  | .name_sconst literal =>
    ∀ value, literal.as_str source = .ok value → Char.ofNat 0 ∉ value ∧
      (features.string_literals.backslash_escapes = true → settled single_quote value = true)

/-- What decides whether the text reads back: no blank opens it, it fits in a source, and what is
between the delimiters is settled. -/
structure Plain (features : FeatureSet) (source : List SourceByte) (text : List Char)
    (spelling : Spelling) : Prop where
  opens : ∀ c ∈ text.head?, features.has_byte_class (ascii c) CLASS_WHITESPACE = false
  fits : (encode text).length ≤ 2 ^ 32 - 1
  settled : spelling.Settled features source

end Spelling

/-- The name that a token by itself is. -/
def read_name (source : List SourceByte) (token : Token) : Option Ident :=
  (parse_quoted_ident source token []).or (parse_string_alias_ident source token)

/-- The text is one token, and that token is the name. -/
def ReadsBack (unicode : Unicode) (features : FeatureSet) (text : List Char) (ident : Ident) :
    Prop :=
  ∃ token read, tokenize_with unicode text features = .ok [token] ∧
    token.span = ⟨0, (encode text).length⟩ ∧ read_name (encode text) token = some read ∧
    read.sym = ident.sym ∧ read.quote = ident.quote

/-! ## The text of a name -/

section
variable {unicode : Unicode} {features : FeatureSet} {opening close : Char} {text : List Char}

theorem any_nul_encode (text : List Char) :
    (encode text).any (·.byte == 0) = text.contains (Char.ofNat 0) := by
  have hzero : (Char.ofNat 0).toNat < 0x80 := by decide
  have hascii : ascii (Char.ofNat 0) = 0 := by decide
  induction text with
  | nil => rfl
  | cons c text ih =>
    rw [encode_cons, List.any_append, ih, List.contains_cons]
    congr 1
    by_cases hc : c = Char.ofNat 0
    · subst hc
      rw [encode_char_ascii hzero]
      rfl
    · have hne : (Char.ofNat 0 == c) = false := beq_eq_false_iff_ne.mpr (Ne.symm hc)
      rw [hne, List.any_eq_false]
      intro b hb
      rw [beq_iff_eq, ← hascii]
      exact bytes_ne hzero hc b hb

theorem inner_quoted_text (opening close : Char) (text : List Char) :
    inner (quoted_text opening close text) = double close text := by
  simp [inner, quoted_text]

theorem contains_quoted_text (hopening : opening ≠ Char.ofNat 0) (hclose : close ≠ Char.ofNat 0)
    (htext : Char.ofNat 0 ∉ text) :
    (encode (quoted_text opening close text)).any (·.byte == 0) = false := by
  rw [any_nul_encode, ← Bool.not_eq_true, List.contains_iff_mem, quoted_text, List.mem_cons,
    List.mem_append, List.mem_singleton, mem_double]
  rintro (h | h | h)
  · exact hopening h.symm
  · exact htext h
  · exact hclose h.symm

/-- A string in plain quotes is one token with its value between them. -/
theorem tokenize_string_text (hclose : close ∈ string_quotes)
    (hstrings : quotes_strings features close = true)
    (hblank : features.has_byte_class (ascii close) CLASS_WHITESPACE = false)
    (hfits : (encode (quoted_text close close text)).length ≤ 2 ^ 32 - 1)
    (hnul : Char.ofNat 0 ∉ text)
    (hsettled : features.string_literals.backslash_escapes = true → settled close text = true) :
    tokenize_with unicode (quoted_text close close text) features =
      .ok [⟨.String, ⟨0, (encode (quoted_text close close text)).length⟩⟩] := by
  obtain ⟨hascii, hback, -⟩ := string_quote_cases hclose
  have hmem : close ∈ quotes ∧ close ≠ Char.ofNat 0 ∧ ascii close ∉ comment_leads := by
    simp only [string_quotes, List.mem_cons, List.not_mem_nil, or_false] at hclose
    obtain rfl | rfl := hclose
    all_goals exact ⟨by decide, by decide, by decide⟩
  refine tokenize_with_one (peek_at_start _ hascii) hblank hmem.2.2 ?_
    (contains_quoted_text hmem.2.1 hmem.2.1 hnul) hfits
  rw [scan_token_string hmem.1 hstrings]
  exact scan_quoted_text hascii rfl hascii hback (fun h => by cases h) hsettled

/-- A quoted identifier is one token. -/
theorem tokenize_ident_text (hopening : opening ∈ quotes) (hquote : (opening, close) ∈ name_quotes)
    (hstrings : quotes_strings features opening = false)
    (hopens : opening_identifier_quote features (ascii opening) = some (ascii close))
    (hblank : features.has_byte_class (ascii opening) CLASS_WHITESPACE = false)
    (hfits : (encode (quoted_text opening close text)).length ≤ 2 ^ 32 - 1)
    (hnul : Char.ofNat 0 ∉ text)
    (hzero : features.identifier_syntax.empty_quoted_identifiers = false → text ≠ []) :
    tokenize_with unicode (quoted_text opening close text) features =
      .ok [⟨.QuotedIdent, ⟨0, (encode (quoted_text opening close text)).length⟩⟩] := by
  have hmem : (opening.toNat < 0x80 ∧ opening ≠ Char.ofNat 0 ∧ ascii opening ∉ comment_leads) ∧
      close.toNat < 0x80 ∧ close ≠ Char.ofNat 0 ∧ close ≠ backslash := by
    simp only [name_quotes, List.mem_cons, List.not_mem_nil, or_false, Prod.mk.injEq] at hquote
    obtain ⟨rfl, rfl⟩ | ⟨rfl, rfl⟩ | ⟨rfl, rfl⟩ := hquote
    all_goals exact ⟨⟨by decide, by decide, by decide⟩, by decide, by decide, by decide⟩
  obtain ⟨⟨hascii, hnul', hlead⟩, hascii', hnul'', hback⟩ := hmem
  refine tokenize_with_one (peek_at_start _ hascii) hblank hlead ?_
    (contains_quoted_text hnul' hnul'' hnul) hfits
  rw [scan_token_ident hopening hstrings, hopens]
  exact scan_quoted_text hascii rfl hascii' hback (fun _ => hzero) (fun h => absurd h Bool.false_ne_true)

/-! ## Strings -/

/-- The style of a name in the quotes of a string. -/
def string_style (close : Char) : QuoteStyle := if close == single_quote then .Single else .Double

theorem read_string_text (hclose : close ∈ string_quotes) :
    read_name (encode (quoted_text close close text))
        ⟨.String, ⟨0, (encode (quoted_text close close text)).length⟩⟩ =
      some ⟨text, string_style close, ⟨0, (encode (quoted_text close close text)).length⟩⟩ := by
  have hvalue : undouble close (inner (quoted_text close close text)) = text := by
    rw [inner_quoted_text, undouble_double]
  unfold read_name parse_quoted_ident parse_string_alias_ident
  simp only [string_quotes, List.mem_cons, List.not_mem_nil, or_false] at hclose
  obtain rfl | rfl := hclose
  all_goals
    simp [get_whole, hvalue]
    simp [quoted_text, string_style, single_quote]

theorem read_name_kind {source : List SourceByte} {token : Token} {read : Ident}
    (h : read_name source token = some read) : token.kind.is_quoted = true := by
  by_contra hkind
  have hident : (token.kind != .QuotedIdent) = true := by
    rw [bne_iff_ne]
    intro heq
    exact hkind (by rw [heq]; rfl)
  have hstring : (token.kind != .String) = true := by
    rw [bne_iff_ne]
    intro heq
    exact hkind (by rw [heq]; rfl)
  unfold read_name parse_quoted_ident parse_string_alias_ident at h
  simp only [hident, hstring, if_true] at h
  cases h

/-- A string in plain quotes reads back if and only if nothing in it escapes a delimiter. -/
theorem string_text_reads_back_iff (unicode : Unicode) (hclose : close ∈ string_quotes)
    (hstrings : quotes_strings features close = true) (ident : Ident)
    (hquote : ident.quote = string_style close) :
    ReadsBack unicode features (quoted_text close close ident.sym) ident ↔
      features.has_byte_class (ascii close) CLASS_WHITESPACE = false ∧
      (encode (quoted_text close close ident.sym)).length ≤ 2 ^ 32 - 1 ∧ Char.ofNat 0 ∉ ident.sym ∧
      (features.string_literals.backslash_escapes = true → settled close ident.sym = true) := by
  obtain ⟨hascii, hback, -⟩ := string_quote_cases hclose
  have hmem : close ∈ quotes := by
    simp only [string_quotes, List.mem_cons, List.not_mem_nil, or_false] at hclose
    obtain rfl | rfl := hclose
    all_goals decide
  constructor
  · rintro ⟨token, read, htokens, hspan, hread, -, -⟩
    obtain ⟨byte, stop, hat, hblank⟩ :=
      tokenize_with_first htokens (by rw [hspan])
    obtain rfl : ascii close = byte := by
      have hpeek := hat.peek
      rw [show (Cursor.new (encode (quoted_text close close ident.sym))).peek = some (ascii close) from
        peek_at_start _ hascii] at hpeek
      exact Option.some.inj hpeek
    have hstop := hat.rest_eq_nil hspan
    have hscan := hat.scanned
    rw [scan_token_string hmem hstrings] at hscan
    refine ⟨hblank, length_le_of_tokenize htokens, fun hnul => ?_, fun hescapes => ?_⟩
    · have hclear := hat.nul (read_name_kind hread)
      rw [hstop, show (Cursor.new (encode (quoted_text close close ident.sym))).text_until
        ⟨(encode (quoted_text close close ident.sym)).length, []⟩ = encode (quoted_text close close ident.sym)
        from List.take_length, any_nul_encode, ← Bool.not_eq_true, List.contains_iff_mem] at hclear
      refine hclear (.tail _ (List.mem_append_left _ (mem_double.mpr hnul)))
    · by_contra hsettled
      rw [Bool.not_eq_true] at hsettled
      apply scan_quoted_unsettled hascii hclose rfl rfl hescapes hsettled hscan
      rw [hstop]
  · rintro ⟨hblank, hfits, hnul, hsettled⟩
    refine ⟨_, _, tokenize_string_text hclose hstrings hblank hfits hnul hsettled, rfl,
      read_string_text hclose, rfl, hquote.symm⟩

end

/-! ## Tokens of a source -/

section
variable {unicode : Unicode} {features : FeatureSet} {source raw : List Char} {token : Token}
  {c stop : Cursor} {byte : UInt8}

/-- The text of a token and what stands behind it. -/
structure Raw (source raw : List Char) (token : Token) (c stop : Cursor) (behind : List Char) :
    Prop where
  here : c.rest = encode (raw ++ behind)
  after : stop.rest = encode behind
  stop : stop.pos = c.pos + (encode raw).length
  nul : token.kind.is_quoted = true → Char.ofNat 0 ∉ raw

theorem raw_of_scanned (hat : ScannedAt unicode features source token c stop byte)
    (hget : get (encode source) token.span = some raw) :
    ∃ behind, Raw source raw token c stop behind := by
  obtain ⟨front, behind, hsource, hfront, hstop⟩ := get_split hget
  rw [hat.span] at hfront hstop
  have hwithin := hat.within
  have hwithin' := hwithin.moves hat.moves
  rw [hsource] at hwithin hwithin'
  have hhere := rest_of_within hwithin hfront.symm
  have hafter : stop.rest = encode behind := by
    rw [← List.append_assoc] at hwithin'
    refine rest_of_within hwithin' ?_
    rw [encode_append, List.length_append, hfront]
    exact hstop
  refine ⟨behind, hhere, hafter, hstop, fun hkind => ?_⟩
  have hnul := hat.nul hkind
  have huntil : c.text_until stop = encode raw := by
    have hsplit := hat.moves.rest_eq
    rw [hhere, hafter, encode_append] at hsplit
    exact (List.append_cancel_right hsplit).symm
  rw [huntil, any_nul_encode, ← Bool.not_eq_true, List.contains_iff_mem] at hnul
  exact hnul

theorem Raw.byte_eq {behind : List Char} (h : Raw source raw token c stop behind)
    (hpeek : c.peek = some byte) {q : Char} (hq : q.toNat < 0x80) (hhead : raw.head? = some q) :
    byte = ascii q := by
  cases raw with
  | nil => cases hhead
  | cons d raw =>
    obtain rfl : d = q := Option.some.inj hhead
    have hhere := h.here
    rw [List.cons_append, encode_ascii _ hq] at hhere
    rw [Cursor.peek, Cursor.peek_nth, hhere] at hpeek
    exact (Option.some.inj hpeek).symm

theorem mem_of_mem_inner {d : Char} (h : d ∈ inner raw) : d ∈ raw :=
  List.mem_of_mem_drop (List.mem_of_mem_dropLast h)

/-- Without escapes a lexeme in quotes is its body alone. -/
theorem scan_quoted_plain {quoting : QuoteScan} (hplain : quoting.backslash = false) (c : Cursor) :
    scan_quoted c quoting = scan.scan_quoted_body c c.pos quoting := by
  unfold scan_quoted
  cases scan.scan_quoted_body c c.pos quoting with
  | error fault => rfl
  | ok scanned =>
    simp only [hplain, Bool.and_false, bind, Except.bind, Bool.false_eq_true, if_false]
    rfl

theorem opening_identifier_quote_eq (hquotes : features.identifier_quotes ⊆ name_quotes)
    {opening : Char} (hascii : opening.toNat < 0x80) {close : UInt8}
    (h : opening_identifier_quote features (ascii opening) = some close) :
    ∃ closing, (opening, closing) ∈ name_quotes ∧ close = ascii closing := by
  obtain ⟨⟨opening', closing⟩, hmem, hclose⟩ := List.exists_of_findSome?_eq_some h
  dsimp only at hclose
  split at hclose
  · rename_i hsame
    simp only [Bool.and_eq_true, decide_eq_true_eq, beq_iff_eq] at hsame
    obtain rfl := ascii_inj hsame.1.1 hascii hsame.1.2
    cases hclose
    exact ⟨closing, hquotes hmem, rfl⟩
  · cases hclose

/-- What a lexeme is that is no string and starts with a quote. -/
theorem ident_of_scanned (hquotes : features.identifier_quotes ⊆ name_quotes)
    (hat : ScannedAt unicode features source token c stop byte) {q : Char} (hq : q ∈ quotes)
    (hbyte : byte = ascii q) (hquoted : token.kind.is_quoted = true)
    (hstrings : quotes_strings features q = false) :
    ∃ close, (q, close) ∈ name_quotes ∧
      opening_identifier_quote features (ascii q) = some (ascii close) ∧
      scan.scan_quoted_body c c.pos (ident_scan features (ascii close)) = .ok (token, stop) := by
  have hascii : q.toNat < 0x80 := by
    simp only [quotes, List.mem_cons, List.not_mem_nil, or_false] at hq
    obtain rfl | rfl | rfl | rfl := hq
    all_goals decide
  have hscan := hat.scanned
  rw [hbyte, scan_token_ident hq hstrings] at hscan
  cases hopens : opening_identifier_quote features (ascii q) with
  | none =>
    rw [hopens] at hscan
    rw [scan_class_kind hscan] at hquoted
    cases hquoted
  | some close =>
    obtain ⟨closing, hmem, rfl⟩ := opening_identifier_quote_eq hquotes hascii hopens
    rw [hopens] at hscan
    refine ⟨closing, hmem, rfl, ?_⟩
    rw [← scan_quoted_plain rfl]
    exact hscan

theorem is_quoted_of_kind {kind : TokenKind} (h : token.kind = kind)
    (hquoted : kind.is_quoted = true) : token.kind.is_quoted = true := by
  rw [h, hquoted]

/-- A plain string whose text is a name is in the quotes of a string. -/
theorem string_quotes_of_scanned (hquotes : features.identifier_quotes ⊆ name_quotes)
    (hat : ScannedAt unicode features source token c stop byte) (hkind : token.kind = .String)
    {q : Char} (hq : q ∈ string_quotes) (hbyte : byte = ascii q) :
    quotes_strings features q = true := by
  have hmem : q ∈ quotes ∧ q.toNat < 0x80 := by
    simp only [string_quotes, List.mem_cons, List.not_mem_nil, or_false] at hq
    obtain rfl | rfl := hq
    all_goals exact ⟨by decide, by decide⟩
  by_contra hstrings
  rw [Bool.not_eq_true] at hstrings
  obtain ⟨close, hclose, -, hscan⟩ := ident_of_scanned hquotes hat hmem.1 hbyte
    (is_quoted_of_kind hkind rfl) hstrings
  have hlt : ascii close < 0x80 := by
    simp only [name_quotes, List.mem_cons, List.not_mem_nil, or_false, Prod.mk.injEq] at hclose
    obtain ⟨-, rfl⟩ | ⟨-, rfl⟩ | ⟨-, rfl⟩ := hclose
    all_goals decide
  obtain ⟨htoken, -⟩ := scan_quoted_body_ok hat.within.isText hlt hscan
  rw [htoken] at hkind
  cases hkind

theorem alias_reads_back_iff (hquotes : features.identifier_quotes ⊆ name_quotes)
    (hat : ScannedAt unicode features source token c stop byte) {ident : Ident}
    (hident : parse_string_alias_ident (encode source) token = some ident) :
    ReadsBack unicode features (ident_text (encode source) ident) ident ↔
      (Spelling.string_alias token).Plain features (encode source) (ident_text (encode source) ident) := by
  unfold parse_string_alias_ident at hident
  split at hident
  · cases hident
  rename_i hkind
  have hkind : token.kind = .String := by simpa using hkind
  obtain ⟨raw, hget, hident⟩ := Option.bind_eq_some_iff.mp hident
  obtain ⟨behind, hraw⟩ := raw_of_scanned hat hget
  have hname : ∃ q ∈ string_quotes, raw.head? = some q ∧
      ident = ⟨undouble q (inner raw), string_style q, token.span⟩ := by
    split at hident
    · rename_i hhead
      cases hident
      exact ⟨single_quote, .head _, hhead, rfl⟩
    · rename_i hhead
      cases hident
      exact ⟨'"', .tail _ (.head _), hhead, rfl⟩
    · cases hident
  obtain ⟨q, hq, hhead, rfl⟩ := hname
  obtain ⟨hascii, hback, -⟩ := string_quote_cases hq
  have hstrings := string_quotes_of_scanned hquotes hat hkind hq
    (hraw.byte_eq hat.peek hascii hhead)
  have hnul : Char.ofNat 0 ∉ undouble q (inner raw) := fun hmem =>
    hraw.nul (is_quoted_of_kind hkind rfl) (mem_of_mem_inner (mem_of_mem_undouble hmem))
  have htext : ident_text (encode source) ⟨undouble q (inner raw), string_style q, token.span⟩ =
      quoted_text q q (undouble q (inner raw)) := by
    simp only [string_quotes, List.mem_cons, List.not_mem_nil, or_false] at hq
    obtain rfl | rfl := hq
    all_goals rfl
  rw [htext]
  refine (string_text_reads_back_iff unicode hq hstrings
    ⟨undouble q (inner raw), string_style q, token.span⟩ rfl).trans ?_
  rw [settled_undouble hback]
  constructor
  · rintro ⟨hblank, hfits, -, hsettled⟩
    refine ⟨fun d hd => ?_, hfits, fun hescapes raw' hraw' => ?_⟩
    · cases hd
      exact hblank
    · rw [hget] at hraw'
      cases hraw'
      rw [hhead]
      exact hsettled hescapes
  · rintro ⟨hopens, hfits, hsettled⟩
    refine ⟨hopens q rfl, hfits, hnul, fun hescapes => ?_⟩
    have hwhole := hsettled hescapes raw hget
    rw [hhead] at hwhole
    exact hwhole

theorem constant_reads_back_iff {literal : Literal} {ident : Ident}
    (hident : parse_name_sconst_ident (encode source) literal = some ident) :
    ReadsBack unicode features (ident_text (encode source) ident) ident ↔
      (Spelling.name_sconst literal).Plain features (encode source)
        (ident_text (encode source) ident) := by
  unfold parse_name_sconst_ident at hident
  split at hident
  · rename_i value hvalue
    cases hident
    have htext : ident_text (encode source) ⟨value, .Single, literal.span⟩ =
        quoted_text single_quote single_quote value := rfl
    rw [htext]
    refine (string_text_reads_back_iff unicode (.head _) rfl
      ⟨value, .Single, literal.span⟩ rfl).trans ?_
    constructor
    · rintro ⟨hblank, hfits, hnul, hsettled⟩
      refine ⟨fun d hd => ?_, hfits, fun value' hvalue' => ?_⟩
      · cases hd
        exact hblank
      · rw [hvalue] at hvalue'
        cases hvalue'
        exact ⟨hnul, hsettled⟩
    · rintro ⟨hopens, hfits, hsettled⟩
      obtain ⟨hnul, hsettled⟩ := hsettled value hvalue
      exact ⟨hopens _ rfl, hfits, hnul, hsettled⟩
  · cases hident

end

end squonk.parser.name
