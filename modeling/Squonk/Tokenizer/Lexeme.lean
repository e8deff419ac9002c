import Squonk.Dialect.Feature
import Squonk.Document.Node
import Squonk.Tokenizer.Cursor
import Squonk.Tokenizer.Escape
import Squonk.Tokenizer.Scan

/-!
# Lexemes

The scanner over bytes, one routine for each category of lexemes. A routine starts at the first
byte of its lexeme and leaves the cursor behind the last one. What Unicode calls a letter or a
number is a parameter.
-/

open squonk.dialect squonk.dialect.lex_class squonk.document

namespace squonk.tokenizer.scan

/-! ## Tokens and errors -/

inductive TokenKind
  | Word | Keyword (slot : Nat) | Number | String | QuotedIdent | Parameter | PositionalColumn
  | Variable | StageReference
  | Operator (op : tokenizer.Operator)
  | Punctuation (punct : tokenizer.Punctuation)
  deriving DecidableEq

structure Token where
  kind : TokenKind
  span : Span
  deriving DecidableEq

inductive LexErrorKind
  | UnterminatedString | UnterminatedQuotedIdent | UnterminatedBlockComment
  | UnterminatedDollarQuote | StrayByte | InvalidEscapeSequence | NulByteInString
  | NulByteInIdentifier | NulByteInComment | ZeroLengthDelimitedIdentifier
  | TrailingJunkAfterNumber | MalformedBlobLiteral | SourceTooLong
  deriving DecidableEq

structure LexError where
  kind : LexErrorKind
  span : Span
  deriving DecidableEq

/-- How a scan ends without a result. It panics where a dialect gives a byte a class that no
    routine expects it to have. -/
inductive Fault
  | error (error : LexError)
  | panic
  deriving DecidableEq

abbrev Scan := Except Fault

def lex_error {α : Type} (kind : LexErrorKind) (start stop : Nat) : Scan α :=
  .error (.error ⟨kind, ⟨start, stop⟩⟩)

/-- The token from `start` up to the cursor. -/
def emit (kind : TokenKind) (start cursor : Cursor) : Token × Cursor :=
  (⟨kind, ⟨start.pos, cursor.pos⟩⟩, cursor)

/-! ## Characters of a name -/

/-- The properties Unicode gives to characters. -/
structure Unicode where
  is_alphabetic : Char → Bool
  is_alphanumeric : Char → Bool

section
variable (unicode : Unicode) (features : FeatureSet)

def is_identifier_start (c : Char) : Bool :=
  if c.toNat < 0x80 then features.has_byte_class (ascii c) CLASS_IDENTIFIER_START
  else
    match features.identifier_syntax.non_ascii with
    | .UnicodeAlphanumeric => unicode.is_alphabetic c
    | .Any => true

def is_identifier_continue (c : Char) : Bool :=
  if c.toNat < 0x80 then features.has_byte_class (ascii c) CLASS_IDENTIFIER_CONTINUE
  else
    match features.identifier_syntax.non_ascii with
    | .UnicodeAlphanumeric => unicode.is_alphanumeric c
    | .Any => true

/-- Whether a name starts `n` bytes ahead. -/
def identifier_starts_at (cursor : Cursor) (n : Nat) : Bool :=
  (cursor.char_at n).any (is_identifier_start unicode features)

/-- The characters of a name behind its first one; a turn passes one of them. -/
def eat_identifier_run : Nat → Cursor → Scan Cursor
  | 0, cursor => .ok cursor
  | n + 1, cursor =>
    match cursor.peek with
    | none => .ok cursor
    | some byte =>
      if byte < 0x80 then
        if features.has_byte_class byte CLASS_IDENTIFIER_CONTINUE ||
            features.identifier_syntax.dollar_in_identifiers && byte == ascii '$' then
          eat_identifier_run n cursor.bump
        else .ok cursor
      else
        match cursor.char_at 0 with
        | none => .error .panic
        | some c =>
          if is_identifier_continue unicode features c then
            eat_identifier_run n (cursor.advance_bytes c.utf8Size)
          else .ok cursor

def eat_identifier_continue (cursor : Cursor) : Scan Cursor :=
  eat_identifier_run unicode features cursor.rest.length cursor

/-- The characters of a text that begins and ends between characters. -/
def chars (text : List SourceByte) : List Char := text.filterMap (·.char)

theorem chars_append (text text' : List SourceByte) :
    chars (text ++ text') = chars text ++ chars text' :=
  List.filterMap_append

theorem chars_encode (source : List Char) : chars (encode source) = source := by
  induction source with
  | nil => rfl
  | cons c source ih =>
    obtain ⟨first, others, heq, -, -, hothers⟩ := encode_char_eq c
    have hnone : chars others = [] :=
      List.filterMap_eq_nil_iff.mpr fun b hb => (hothers b hb).1
    rw [encode_cons, chars_append, ih, heq]
    show c :: chars others ++ source = c :: source
    rw [hnone]
    rfl

def scan_word (cursor : Cursor) : Scan (Token × Cursor) := do
  match cursor.bump_char with
  | none => .error .panic
  | some stop =>
    let stop ← eat_identifier_continue unicode features stop
    match interner.lookup_keyword (String.ofList (chars (cursor.text_until stop))) with
    | some slot => return emit (.Keyword slot) cursor stop
    | none => return emit .Word cursor stop

/-! ## Numbers -/

def is_digit (byte : UInt8) : Bool := features.has_byte_class byte CLASS_DIGIT

/-- Digits with separators between them; `prev_was_digit` is whether one was just read. -/
def eat_decimal_run (separators strict : Bool) : Bool → Nat → List SourceByte → Cursor
  | _, pos, [] => ⟨pos, []⟩
  | prev_was_digit, pos, b :: rest =>
    if is_digit features b.byte then eat_decimal_run separators strict true (pos + 1) rest
    else if b.byte == ascii '_' && separators && (!strict || prev_was_digit) &&
        rest.head?.any fun b => is_digit features b.byte then
      eat_decimal_run separators strict false (pos + 1) rest
    else ⟨pos, b :: rest⟩

def eat_decimal_digits (cursor : Cursor) (separators strict : Bool) : Cursor :=
  eat_decimal_run features separators strict false cursor.pos cursor.rest

def eat_fixed_point (cursor : Cursor) (separators strict : Bool) : Cursor :=
  if cursor.peek == some (ascii '.') then
    eat_decimal_digits features cursor.bump separators strict
  else
    let cursor := eat_decimal_digits features cursor separators strict
    if cursor.peek == some (ascii '.') then
      eat_decimal_digits features cursor.bump separators strict
    else cursor

inductive Radix | Hex | Octal | Binary
  deriving DecidableEq

def Radix.is_digit : Radix → UInt8 → Bool
  | .Hex, byte => is_ascii_hexdigit byte
  | .Octal, byte => ascii '0' ≤ byte && byte ≤ ascii '7'
  | .Binary, byte => byte == ascii '0' || byte == ascii '1'

/-- The radix whose marker stands behind a zero, where digits of it follow. -/
def radix_prefix (cursor : Cursor) : Option Radix := do
  let num := features.numeric_literals
  if cursor.peek != some (ascii '0') then none
  let marker ← cursor.peek_nth 1
  let radix : Radix ←
    if (marker == ascii 'x' || marker == ascii 'X') && num.hex_integers then some .Hex
    else if (marker == ascii 'o' || marker == ascii 'O') && num.octal_integers then some .Octal
    else if (marker == ascii 'b' || marker == ascii 'B') && num.binary_integers then some .Binary
    else none
  let first ← cursor.peek_nth 2
  if radix.is_digit first ||
      num.underscore_separators && num.radix_leading_underscore && first == ascii '_' &&
        (cursor.peek_nth 3).any radix.is_digit then
    some radix
  else none

def eat_radix_run (radix : Radix) (separators : Bool) : Nat → List SourceByte → Cursor
  | pos, [] => ⟨pos, []⟩
  | pos, b :: rest =>
    if radix.is_digit b.byte ||
        b.byte == ascii '_' && separators && rest.head?.any fun b => radix.is_digit b.byte then
      eat_radix_run radix separators (pos + 1) rest
    else ⟨pos, b :: rest⟩

def eat_radix_digits (cursor : Cursor) (radix : Radix) (separators : Bool) : Cursor :=
  eat_radix_run radix separators cursor.pos cursor.rest

def is_sign (byte : UInt8) : Bool := byte == ascii '+' || byte == ascii '-'

def exponent_follows (cursor : Cursor) : Bool :=
  let ahead := if (cursor.peek_nth 1).any is_sign then 2 else 1
  (cursor.peek_nth ahead).any (is_digit features)

/-- The exponent at the cursor, where there is one. -/
def eat_exponent (cursor : Cursor) (separators strict : Bool) : Cursor :=
  if (cursor.peek == some (ascii 'e') || cursor.peek == some (ascii 'E')) &&
      exponent_follows features cursor then
    let cursor := cursor.bump
    let cursor := if cursor.peek.any is_sign then cursor.bump else cursor
    eat_decimal_digits features cursor separators strict
  else cursor

def eat_number (cursor : Cursor) : Cursor :=
  let separators := features.numeric_literals.underscore_separators
  let strict := features.numeric_literals.reject_trailing_junk
  match radix_prefix features cursor with
  | some radix => eat_radix_digits cursor.bump.bump radix separators
  | none =>
    eat_exponent features (eat_fixed_point features cursor separators strict) separators strict

def scan_number (cursor : Cursor) : Scan (Token × Cursor) := do
  let stop := eat_number features cursor
  if features.numeric_literals.reject_trailing_junk &&
      identifier_starts_at unicode features stop 0 then
    let stop ← eat_identifier_continue unicode features stop
    lex_error .TrailingJunkAfterNumber cursor.pos stop.pos
  else return emit .Number cursor stop

def money_follows (cursor : Cursor) : Bool :=
  (cursor.peek_nth 1).any (is_digit features) ||
    cursor.peek_nth 1 == some (ascii '.') && (cursor.peek_nth 2).any (is_digit features)

def scan_money (cursor : Cursor) : Token × Cursor :=
  emit .Number cursor (eat_fixed_point features cursor.bump false false)

/-! ## Parameters, variables and references -/

def scan_parameter (cursor : Cursor) : Scan (Token × Cursor) := do
  let stop := cursor.bump
  let digits_follow := stop.peek.any is_ascii_digit
  if cursor.peek == some (ascii '$') then
    if digits_follow then return emit .Parameter cursor (stop.eat_while is_ascii_digit)
    else return emit .Parameter cursor (← eat_identifier_continue unicode features stop)
  else if cursor.peek == some (ascii ':') || cursor.peek == some (ascii '@') then
    return emit .Parameter cursor (← eat_identifier_continue unicode features stop)
  else if features.parameters.numbered_question && digits_follow then
    return emit .Parameter cursor (stop.eat_while is_ascii_digit)
  else return emit .Parameter cursor stop

def scan_positional_column (cursor : Cursor) : Token × Cursor :=
  emit .PositionalColumn cursor (cursor.bump.eat_while is_ascii_digit)

/-- Names behind dots, as many as follow. -/
def eat_qualifiers : Nat → Cursor → Scan Cursor
  | 0, cursor => .ok cursor
  | n + 1, cursor => do
    if cursor.peek == some (ascii '.') && identifier_starts_at unicode features cursor 1 then
      eat_qualifiers n (← eat_identifier_continue unicode features cursor.bump)
    else return cursor

def is_path_byte (byte : UInt8) : Bool :=
  !is_ascii_whitespace byte && !(",)(;=<>!".toList.map ascii).contains byte

/-- The segments of a path, as many as follow. -/
def eat_path : Nat → Cursor → Cursor
  | 0, cursor => cursor
  | n + 1, cursor =>
    if cursor.peek == some (ascii '/') then eat_path n (cursor.bump.eat_while is_path_byte)
    else cursor

/-- What a stage reference names, behind its sigil. -/
def eat_stage_body (cursor : Cursor) : Scan Cursor := do
  if cursor.peek == some (ascii '~') then return cursor.bump
  else if cursor.peek == some (ascii '%') then
    if identifier_starts_at unicode features cursor.bump 0 then
      eat_identifier_continue unicode features cursor.bump
    else return cursor.bump
  else
    let cursor ← eat_identifier_continue unicode features cursor
    eat_qualifiers unicode features cursor.rest.length cursor

def scan_stage_reference (cursor : Cursor) : Scan (Token × Cursor) := do
  let stop ← eat_stage_body unicode features cursor.bump
  return emit .StageReference cursor (eat_path stop.rest.length stop)

def scan_session_variable (cursor : Cursor) : Scan (Token × Cursor) := do
  let name := cursor.bump
  if name.peek == some (ascii '@') then
    let scope ← eat_identifier_continue unicode features name.bump
    if scope.peek == some (ascii '.') && identifier_starts_at unicode features scope 1 then
      return emit .Variable cursor (← eat_identifier_continue unicode features scope.bump)
    else return emit .Variable cursor scope
  else return emit .Variable cursor (← eat_identifier_continue unicode features name)

end

/-! ## Quoted text -/

structure QuoteScan where
  close : UInt8
  kind : TokenKind
  unterminated : LexErrorKind
  backslash : Bool
  allow_zero_length : Bool

/-- The body of a quoted lexeme that began at `start`, from behind its opening delimiter, and
    its closing delimiter. -/
def scan_quote_run (scan : QuoteScan) (start body_start : Nat) :
    Nat → List SourceByte → Scan (Token × Cursor)
  | pos, [] => lex_error scan.unterminated start pos
  | pos, b :: rest =>
    if b.byte == ascii backslash && scan.backslash then
      match rest with
      | [] => lex_error scan.unterminated start (pos + 1)
      | _ :: rest => scan_quote_run scan start body_start (pos + 2) rest
    else if b.byte == scan.close then
      match rest with
      | [] =>
        if scan.kind == .QuotedIdent && !scan.allow_zero_length && pos == body_start then
          lex_error .ZeroLengthDelimitedIdentifier start (pos + 1)
        else .ok (⟨scan.kind, ⟨start, pos + 1⟩⟩, ⟨pos + 1, []⟩)
      | b' :: rest =>
        if b'.byte == scan.close then scan_quote_run scan start body_start (pos + 2) rest
        else if scan.kind == .QuotedIdent && !scan.allow_zero_length && pos == body_start then
          lex_error .ZeroLengthDelimitedIdentifier start (pos + 1)
        else .ok (⟨scan.kind, ⟨start, pos + 1⟩⟩, ⟨pos + 1, b' :: rest⟩)
    else scan_quote_run scan start body_start (pos + 1) rest

def scan_quoted_body (cursor : Cursor) (start : Nat) (scan : QuoteScan) : Scan (Token × Cursor) :=
  let body := cursor.bump
  scan_quote_run scan start body.pos body.pos body.rest

/-- The delimiter of the segment that continues a string at the cursor. -/
def continuation_close (scan : QuoteScan) (cursor : Cursor) : Option UInt8 :=
  if cursor.peek == some (ascii single_quote) then some (ascii single_quote)
  else if cursor.peek == some (ascii '"') && scan.close == ascii '"' then some (ascii '"')
  else none

/-- The segments that continue a string behind line breaks, read by the rules of the first one;
    with whether there is any. -/
def extend_string_run (scan : QuoteScan) :
    Nat → Bool → Token × Cursor → Scan ((Token × Bool) × Cursor)
  | 0, continued, (token, cursor) => .ok ((token, continued), cursor)
  | n + 1, continued, (token, cursor) => do
    let behind := cursor.eat_while fun byte => escape.is_gap ⟨byte, none⟩
    let saw_newline := (cursor.text_until behind).any escape.is_line_break
    match continuation_close scan behind with
    | some close =>
      if saw_newline then
        let segment : QuoteScan := ⟨close, .String, .UnterminatedString, scan.backslash, false⟩
        extend_string_run scan n true (← scan_quoted_body behind token.span.start segment)
      else return ((token, continued), cursor)
    | none => return ((token, continued), cursor)

def extend_string_continuations (cursor : Cursor) (token : Token) (scan : QuoteScan) :
    Scan ((Token × Bool) × Cursor) :=
  extend_string_run scan cursor.rest.length false (token, cursor)

def scan_quoted (cursor : Cursor) (scan : QuoteScan) : Scan (Token × Cursor) := do
  let (token, stop) ← scan_quoted_body cursor cursor.pos scan
  if token.kind == .String && scan.backslash then
    let ((token, _), stop) ← extend_string_continuations stop token scan
    return (token, stop)
  else return (token, stop)

/-- A string behind a marker of `prefix_len` bytes; with whether it is continued. -/
def scan_prefixed_string (cursor : Cursor) (prefix_len : Nat) (close : UInt8) (backslash : Bool) :
    Scan ((Token × Bool) × Cursor) := do
  let scan : QuoteScan := ⟨close, .String, .UnterminatedString, backslash, false⟩
  let (token, stop) ← scan_quoted_body (cursor.advance_bytes prefix_len) cursor.pos scan
  if backslash then extend_string_continuations stop token scan
  else return ((token, false), stop)

/-- A string behind a marker, without its being continued or not. -/
def scan_marked_string (cursor : Cursor) (prefix_len : Nat) (close : UInt8) (backslash : Bool) :
    Scan (Token × Cursor) := do
  let ((token, _), stop) ← scan_prefixed_string cursor prefix_len close backslash
  return (token, stop)

/-- An escape string, whose escapes are checked at once. -/
def scan_escape_string (cursor : Cursor) : Scan (Token × Cursor) := do
  let ((token, continued), stop) ← scan_prefixed_string cursor 1 (ascii single_quote) true
  let text := cursor.text_until stop
  if bif continued then escape.escape_string_segments_are_valid text
      else escape.postgres_escape_string_is_valid text then
    return (token, stop)
  else .error (.error ⟨.InvalidEscapeSequence, token.span⟩)

def scan_unicode_ident (features : FeatureSet) (cursor : Cursor) : Scan (Token × Cursor) :=
  scan_quoted_body (cursor.advance_bytes 2) cursor.pos
    ⟨ascii '"', .QuotedIdent, .UnterminatedQuotedIdent, false,
      features.identifier_syntax.empty_quoted_identifiers⟩

def scan_hex_blob (cursor : Cursor) : Scan (Token × Cursor) :=
  let digits := cursor.advance_bytes 2
  let stop := digits.eat_while is_ascii_hexdigit
  if (stop.pos - digits.pos) % 2 == 0 && stop.peek == some (ascii single_quote) then
    .ok (emit .String cursor stop.bump)
  else
    let stop := stop.eat_while (· != ascii single_quote)
    if stop.peek == some (ascii single_quote) then
      lex_error .MalformedBlobLiteral cursor.pos stop.bump.pos
    else lex_error .UnterminatedString cursor.pos stop.pos

/-- The length of the character set at the cursor with its underscore, and the quote behind it. -/
def charset_introducer_prefix (features : FeatureSet) (cursor : Cursor) : Option (Nat × UInt8) :=
  let name := (cursor.rest.drop 1).takeWhile fun b =>
    b.byte < 0x80 && features.has_byte_class b.byte CLASS_IDENTIFIER_CONTINUE
  let len := name.length + 1
  if name.isEmpty then none
  else if cursor.peek_nth len == some (ascii single_quote) then some (len, ascii single_quote)
  else if cursor.peek_nth len == some (ascii '"') && features.string_literals.double_quoted_strings
    then some (len, ascii '"')
  else none

def is_dollar_tag_start (features : FeatureSet) (byte : UInt8) : Bool :=
  features.has_byte_class byte CLASS_IDENTIFIER_START || 0x80 ≤ byte

def is_dollar_tag_continue (features : FeatureSet) (byte : UInt8) : Bool :=
  features.has_byte_class byte CLASS_IDENTIFIER_CONTINUE

/-- How long the tag behind a dollar sign is. -/
def dollar_tag_len (features : FeatureSet) : List SourceByte → Nat
  | [] => 0
  | b :: rest =>
    if is_dollar_tag_start features b.byte then
      1 + (rest.takeWhile fun b => is_dollar_tag_continue features b.byte).length
    else 0

/-- The body of a dollar-quoted string, from one dollar sign to the next one up to its
    delimiter. -/
def scan_dollar_body (delim : List UInt8) (start : Nat) : Nat → Cursor → Scan (Token × Cursor)
  | 0, _ => .error .panic
  | n + 1, cursor =>
    match cursor.rest.findIdx? (·.byte == ascii '$') with
    | some offset =>
      let candidate := cursor.advance_bytes offset
      if delim.isPrefixOf (candidate.rest.map (·.byte)) then
        let stop := candidate.advance_bytes delim.length
        .ok (⟨.String, ⟨start, stop.pos⟩⟩, stop)
      else scan_dollar_body delim start n candidate.bump
    | none => lex_error .UnterminatedDollarQuote start (cursor.pos + cursor.rest.length)

def scan_dollar_quote (features : FeatureSet) (cursor : Cursor) : Scan (Token × Cursor) :=
  let tag := dollar_tag_len features (cursor.rest.drop 1)
  if cursor.peek_nth (tag + 1) == some (ascii '$') then
    let delim := (cursor.rest.take (tag + 2)).map (·.byte)
    let body := cursor.advance_bytes delim.length
    scan_dollar_body delim cursor.pos (body.rest.length + 1) body
  else lex_error .StrayByte cursor.pos (cursor.pos + 1)

/-- The same search from one byte to the next one. -/
def scan_dollar_run (delim : List UInt8) (start : Nat) :
    Nat → List SourceByte → Scan (Token × Cursor)
  | pos, [] => lex_error .UnterminatedDollarQuote start pos
  | pos, b :: rest =>
    if delim.isPrefixOf ((b :: rest).map (·.byte)) then
      .ok (⟨.String, ⟨start, pos + delim.length⟩⟩,
        ⟨pos + delim.length, (b :: rest).drop delim.length⟩)
    else scan_dollar_run delim start (pos + 1) rest

/-! ## Operators and punctuation -/

section
variable (features : FeatureSet)

/-- The character a byte stands for where it is ASCII. -/
def ascii_char (b : SourceByte) : Char := Char.ofNat b.byte.toNat

/-- The operator the run at the cursor is, and how much of the run it takes. -/
def custom_operator (cursor : Cursor) : Option (tokenizer.Operator × Nat) :=
  match cursor.rest.map ascii_char with
  | [] => none
  | lead :: behind =>
    let run := custom_operator_run features lead behind
    match known_operator_token features run with
    | some op => some (op, run.length)
    | none => if run == ['=', '>'] then some (.Eq, 1) else some (.Custom run, run.length)

/-- The operator at the cursor where operators are fixed, and its width. -/
def fixed_operator (cursor : Cursor) : Option (tokenizer.Operator × Nat) :=
  let follows (n : Nat) (c : Char) : Bool := cursor.peek_nth n == some (ascii c)
  let ops := features.operator_syntax
  match cursor.rest.head?.map ascii_char with
  | some '+' => some (.Plus, 1)
  | some '-' =>
    if ops.json_arrow_operators && follows 1 '>' then
      if follows 2 '>' then some (.MinusGtGt, 3) else some (.MinusGt, 2)
    else some (.Minus, 1)
  | some '*' => some (.Star, 1)
  | some '/' =>
    if ops.integer_divide_slash && follows 1 '/' then some (.SlashSlash, 2) else some (.Slash, 1)
  | some '%' => some (.Percent, 1)
  | some '=' =>
    if features.call_syntax.named_argument && follows 1 '>' then some (.Arrow, 2)
    else if ops.double_equals && follows 1 '=' then some (.EqEq, 2)
    else some (.Eq, 1)
  | some '<' =>
    if follows 1 '=' then
      if ops.null_safe_equals && follows 2 '>' then some (.LtEqGt, 3) else some (.LtEq, 2)
    else if follows 1 '>' then some (.NotEq .AngleBracket, 2)
    else if follows 1 '<' then some (.ShiftLeft, 2)
    else if ops.containment_operators && follows 1 '@' then some (.LtAt, 2)
    else some (.Lt, 1)
  | some '>' =>
    if follows 1 '=' then some (.GtEq, 2)
    else if follows 1 '>' then some (.ShiftRight, 2)
    else some (.Gt, 1)
  | some '@' =>
    if follows 1 '>' then some (.AtGt, 2)
    else if follows 1 '?' then some (.AtQuestion, 2)
    else if follows 1 '@' then some (.AtAt, 2)
    else none
  | some '#' =>
    if ops.jsonb_operators && follows 1 '>' then
      if follows 2 '>' then some (.HashGtGt, 3) else some (.HashGt, 2)
    else if ops.jsonb_operators && follows 1 '-' then some (.HashMinus, 2)
    else some (.Hash, 1)
  | some '?' =>
    if follows 1 '|' then some (.QuestionPipe, 2)
    else if follows 1 '&' then some (.QuestionAmp, 2)
    else some (.Question, 1)
  | some '!' => if follows 1 '=' then some (.NotEq .Bang, 2) else some (.Bang, 1)
  | some '|' =>
    if follows 1 '|' then some (.Concat, 2)
    else if features.query_tail_syntax.pipe_syntax && follows 1 '>' then some (.PipeArrow, 2)
    else some (.Pipe, 1)
  | some '&' => if follows 1 '&' then some (.AmpAmp, 2) else some (.Amp, 1)
  | some '^' =>
    if ops.starts_with_operator && follows 1 '@' then some (.CaretAt, 2) else some (.Caret, 1)
  | some '~' => some (.Tilde, 1)
  | _ => none

def scan_operator (cursor : Cursor) : Scan (Token × Cursor) :=
  match bif features.operator_syntax.custom_operators then custom_operator features cursor
      else fixed_operator features cursor with
  | some (op, width) => .ok (emit (.Operator op) cursor (cursor.advance_bytes width))
  | none => .error .panic

def punctuation_of (b : SourceByte) : Option tokenizer.Punctuation :=
  match ascii_char b with
  | '(' => some .LParen
  | ')' => some .RParen
  | ',' => some .Comma
  | ';' => some .Semicolon
  | '.' => some .Dot
  | '[' => some .LBracket
  | ']' => some .RBracket
  | '{' => some .LBrace
  | '}' => some .RBrace
  | ':' => some .Colon
  | _ => none

def scan_punctuation (cursor : Cursor) : Scan (Token × Cursor) :=
  let colon := cursor.peek == some (ascii ':')
  if colon && cursor.peek_nth 1 == some (ascii ':') then
    .ok (emit (.Punctuation .DoubleColon) cursor cursor.bump.bump)
  else if colon &&
      (features.call_syntax.named_argument || features.session_variables.variable_assignment) &&
      cursor.peek_nth 1 == some (ascii '=') then
    .ok (emit (.Operator .ColonEquals) cursor cursor.bump.bump)
  else
    match cursor.rest.head?.bind punctuation_of with
    | some punct => .ok (emit (.Punctuation punct) cursor cursor.bump)
    | none => .error .panic

end

end squonk.tokenizer.scan
