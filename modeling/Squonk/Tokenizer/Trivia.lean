import Squonk.Tokenizer.Lexeme

/-!
# Trivia and tokens

The loop over the blanks and comments in front of a token, the dispatch to the routine that reads
the token, and the drivers that read a whole source, with the trivia recorded or not.
-/

open squonk.dialect squonk.dialect.lex_class squonk.document

namespace squonk.tokenizer.scan

inductive TriviaKind | LineComment | BlockComment | Whitespace
  deriving DecidableEq

structure TriviaRange where
  kind : TriviaKind
  span : Span
  deriving DecidableEq

/-- Where trivia goes; a sink that does not record is never given any. -/
structure TriviaSink (S : Type) where
  RECORDING : Bool
  record : S → TriviaRange → S

def NoTrivia : TriviaSink Unit := ⟨false, fun sink _ => sink⟩

def Recorded : TriviaSink (List TriviaRange) := ⟨true, fun ranges range => ranges ++ [range]⟩

/-- The sink when it has been given the ranges. -/
def TriviaSink.give {S : Type} (sink : TriviaSink S) (trivia : S) (ranges : List TriviaRange) : S :=
  bif sink.RECORDING then ranges.foldl sink.record trivia else trivia

/-- The opener of the versioned comment the scan is in. -/
structure LexState where
  versioned_region_start : Option Nat
  deriving DecidableEq

/-! ## Comments -/

def skip_line_comment (cursor : Cursor) (marker_len : Nat) (cr_terminates : Bool) : Cursor :=
  (cursor.advance_bytes marker_len).eat_while fun byte =>
    byte != 0x0a && !(cr_terminates && byte == 0x0d)

/-- The comment that began at `start`, from where it is `depth` openers deep. -/
def skip_block_run (nested silent_eof : Bool) (start : Nat) :
    Nat → Nat → List SourceByte → Scan Cursor
  | _, pos, [] =>
    if silent_eof then .ok ⟨pos, []⟩ else lex_error .UnterminatedBlockComment start pos
  | depth, pos, b :: rest =>
    match rest with
    | [] =>
      if silent_eof then .ok ⟨pos + 1, []⟩
      else lex_error .UnterminatedBlockComment start (pos + 1)
    | b' :: rest =>
      if b.byte == ascii '/' && b'.byte == ascii '*' && nested then
        skip_block_run nested silent_eof start (depth + 1) (pos + 2) rest
      else if b.byte == ascii '*' && b'.byte == ascii '/' then
        if depth == 1 then .ok ⟨pos + 2, rest⟩
        else skip_block_run nested silent_eof start (depth - 1) (pos + 2) rest
      else skip_block_run nested silent_eof start depth (pos + 1) (b' :: rest)

def skip_block_comment (cursor : Cursor) (nested silent_eof : Bool) : Scan Cursor :=
  let body := cursor.bump.bump
  skip_block_run nested silent_eof cursor.pos 1 body.pos body.rest

/-- The rest of a region that is passed over; a turn passes a byte or an inner comment. -/
def skip_discarded_region (region_start : Nat) (nested : Bool) : Nat → Cursor → Scan Cursor
  | 0, cursor => lex_error .UnterminatedBlockComment region_start cursor.pos
  | n + 1, cursor => do
    if cursor.peek == none then lex_error .UnterminatedBlockComment region_start cursor.pos
    else if cursor.peek == some (ascii '*') && cursor.peek_nth 1 == some (ascii '/') then
      return cursor.advance_bytes 2
    else if cursor.peek == some (ascii '/') && cursor.peek_nth 1 == some (ascii '*') then
      skip_discarded_region region_start nested n (← skip_block_comment cursor nested false)
    else skip_discarded_region region_start nested n cursor.bump

/-- How many of the digits at the cursor are the version of a region. -/
def version_len (cursor : Cursor) : Nat :=
  match ((cursor.rest.take 7).takeWhile fun b => is_ascii_digit b.byte).length with
  | 0 | 1 | 2 | 3 | 4 => 0
  | 6 => 6
  | _ => 5

def scan_versioned_marker (cursor : Cursor) (bound : Nat) (nested : Bool) (state : LexState) :
    Scan (Cursor × LexState) := do
  let marker := cursor.advance_bytes 3
  let len := version_len marker
  let version := (marker.rest.take len).foldl
    (fun version b => version * 10 + (b.byte - ascii '0').toNat) 0
  let body := marker.advance_bytes len
  if len > 0 && version > bound then
    let stop ← skip_discarded_region cursor.pos nested body.rest.length body
    return (stop, state)
  else return (body, ⟨state.versioned_region_start.or (some cursor.pos)⟩)

/-! ## The loop over trivia -/

section
variable (features : FeatureSet)

/-- The run of trivia at the cursor, where there is one, and the state behind it. -/
def trivia_run (cursor : Cursor) (state : LexState) :
    Scan (Option (TriviaKind × Cursor × LexState)) := do
  let comments := features.comment_syntax
  let cr_terminates := comments.line_comment_ends_at_carriage_return
  match cursor.peek with
  | none => return none
  | some byte =>
    if features.has_byte_class byte CLASS_WHITESPACE then
      let stop := cursor.eat_while fun b =>
        features.has_byte_class b (CLASS_WHITESPACE ||| CLASS_WHITESPACE_CONTINUE)
      return some (.Whitespace, stop, state)
    else if byte == ascii '-' && cursor.peek_nth 1 == some (ascii '-') then
      return some (.LineComment, skip_line_comment cursor 2 cr_terminates, state)
    else if byte == ascii '#' && comments.line_comment_hash then
      return some (.LineComment, skip_line_comment cursor 1 cr_terminates, state)
    else if byte == ascii '*' && state.versioned_region_start.isSome &&
        cursor.peek_nth 1 == some (ascii '/') then
      return some (.BlockComment, cursor.advance_bytes 2, ⟨none⟩)
    else if byte == ascii '/' && cursor.peek_nth 1 == some (ascii '*') &&
        !(comments.unterminated_block_comment_at_eof && cursor.peek_nth 2 == none) then
      match comments.versioned_comments with
      | some bound =>
        if cursor.peek_nth 2 == some (ascii '!') then
          let (stop, state) ←
            scan_versioned_marker cursor bound comments.nested_block_comments state
          return some (.BlockComment, stop, state)
        else
          let stop ← skip_block_comment cursor comments.nested_block_comments
            comments.unterminated_block_comment_at_eof
          return some (.BlockComment, stop, state)
      | none =>
        let stop ← skip_block_comment cursor comments.nested_block_comments
          comments.unterminated_block_comment_at_eof
        return some (.BlockComment, stop, state)
    else return none

/-- What the loop over trivia keeps: whether content stands in front of the sweep, whether it has
    passed a comment, and where a blank stands that nothing may follow in the statement. -/
structure Sweep where
  content_before : Bool
  comment_seen : Bool
  pending_boundary : Option Nat
  deriving DecidableEq

/-- The sweep behind a run of blanks. -/
def Sweep.blank (self : Sweep) (start : Cursor) (text : List SourceByte) : Sweep :=
  if features.byte_classes.has_boundary_whitespace && self.pending_boundary.isNone &&
      (self.content_before || self.comment_seen) then
    { self with
      pending_boundary :=
        (text.findIdx? fun b => features.has_byte_class b.byte CLASS_WHITESPACE_BOUNDARY).map
          (start.pos + ·) }
  else self

/-- Whether the run between the cursors may stand where it does; with the sweep behind it. -/
def check_run (kind : TriviaKind) (start stop : Cursor) (sweep : Sweep) : Scan Sweep :=
  let text := start.text_until stop
  if kind == .Whitespace then .ok (sweep.blank features start text)
  else
    match sweep.pending_boundary with
    | some off => lex_error .StrayByte off (off + 1)
    | none =>
      if text.any (·.byte == 0) then lex_error .NulByteInComment start.pos stop.pos
      else .ok { sweep with comment_seen := true }

variable {S : Type} (sink : TriviaSink S)

/-- The trivia at the cursor; a turn passes a run of it. -/
def skip_trivia_loop : Nat → Sweep → Cursor → S → LexState → Scan (Cursor × S × LexState)
  | n, sweep, cursor, trivia, state => do
    match ← trivia_run features cursor state with
    | none =>
      match sweep.pending_boundary with
      | some off =>
        if cursor.peek.any (· != ascii ';') then lex_error .StrayByte off (off + 1)
        else return (cursor, trivia, state)
      | none => return (cursor, trivia, state)
    | some (kind, stop, state) =>
      let sweep ← check_run features kind cursor stop sweep
      let trivia := bif sink.RECORDING
        then sink.record trivia ⟨kind, ⟨cursor.pos, stop.pos⟩⟩ else trivia
      match n with
      | 0 => return (stop, trivia, state)
      | n + 1 => skip_trivia_loop n sweep stop trivia state

def skip_trivia (source : List SourceByte) (cursor : Cursor) (trivia : S) (state : LexState) :
    Scan (Cursor × S × LexState) :=
  let content_before := cursor.pos != 0 &&
    source[cursor.pos - 1]?.map (·.byte) != some (ascii ';')
  skip_trivia_loop features sink cursor.rest.length ⟨content_before, false, none⟩ cursor trivia
    state

/-! ## One token -/

/-- The closing delimiter of the quoted names that `byte` opens; only ASCII delimiters count. -/
def opening_identifier_quote (byte : UInt8) : Option UInt8 :=
  features.identifier_quotes.findSome? fun (opening, closing) =>
    if opening.toNat < 0x80 && ascii opening == byte && closing.toNat < 0x80 then
      some (ascii closing)
    else none

end

section
variable (unicode : Unicode) (features : FeatureSet)

/-- The routine for a lexeme that starts at a dollar sign. -/
def scan_dollar (cursor : Cursor) : Scan (Token × Cursor) :=
  if features.numeric_literals.money_literals && money_follows features cursor then
    .ok (scan_money features cursor)
  else if features.parameters.positional_dollar && (cursor.peek_nth 1).any is_ascii_digit then
    scan_parameter unicode features cursor
  else if features.parameters.named_dollar && identifier_starts_at unicode features cursor 1 then
    scan_parameter unicode features cursor
  else if features.string_literals.dollar_quoted_strings then scan_dollar_quote features cursor
  else lex_error .StrayByte cursor.pos (cursor.pos + 1)

/-- The routine for a lexeme that starts at an at sign, where there is one. -/
def scan_at (cursor : Cursor) : Option (Scan (Token × Cursor)) :=
  let named (n : Nat) := identifier_starts_at unicode features cursor n
  let follows (c : Char) : Bool := cursor.peek_nth 1 == some (ascii c)
  if features.utility_syntax.stage_references && (follows '~' || follows '%' || named 1) then
    some (scan_stage_reference unicode features cursor)
  else if features.session_variables.system_variables && follows '@' && named 2 then
    some (scan_session_variable unicode features cursor)
  else if features.session_variables.user_variables && named 1 then
    some (scan_session_variable unicode features cursor)
  else if features.parameters.named_at && named 1 then
    some (scan_parameter unicode features cursor)
  else if features.operator_syntax.containment_operators && follows '>' then
    some (scan_operator features cursor)
  else if features.operator_syntax.jsonb_operators && (follows '?' || follows '@') then
    some (scan_operator features cursor)
  else if features.operator_syntax.custom_operators then some (scan_operator features cursor)
  else if features.session_variables.user_variables then
    some (.ok (emit (.Punctuation .At) cursor cursor.bump))
  else none

/-- The routine for a lexeme that starts at a question mark, where there is one. -/
def scan_question (cursor : Cursor) : Option (Scan (Token × Cursor)) :=
  if features.parameters.anonymous_question then some (scan_parameter unicode features cursor)
  else if features.parameters.numbered_question && (cursor.peek_nth 1).any is_ascii_digit then
    some (scan_parameter unicode features cursor)
  else if features.operator_syntax.jsonb_operators then some (scan_operator features cursor)
  else none

/-- The routine for a string behind a marker, where `byte` is one. -/
def scan_marked (cursor : Cursor) (byte : UInt8) : Option (Scan (Token × Cursor)) :=
  let literals := features.string_literals
  let quote := ascii single_quote
  let marker (c : Char) : Bool := byte == ascii c || byte == ascii c.toLower
  let quoted : Bool := cursor.peek_nth 1 == some quote
  let ampersand : Bool := cursor.peek_nth 1 == some (ascii '&')
  if marker 'E' && literals.escape_strings && quoted then some (scan_escape_string cursor)
  else if marker 'N' && literals.national_strings && quoted then
    some (scan_marked_string cursor 1 quote literals.backslash_escapes)
  else if marker 'U' && literals.unicode_strings && ampersand &&
      cursor.peek_nth 2 == some quote then
    some (scan_marked_string cursor 2 quote false)
  else if marker 'U' && literals.unicode_strings && ampersand &&
      cursor.peek_nth 2 == some (ascii '"') then
    some (scan_unicode_ident features cursor)
  else if marker 'X' && literals.blob_literals && quoted then some (scan_hex_blob cursor)
  else if (marker 'B' || marker 'X') && literals.bit_string_literals && quoted then
    some (scan_marked_string cursor 1 quote false)
  else if byte == ascii '_' && literals.charset_introducers then
    match charset_introducer_prefix features cursor with
    | some (prefix_len, close) =>
      some (scan_marked_string cursor prefix_len close literals.backslash_escapes)
    | none => some (scan_word unicode features cursor)
  else none

/-- The routine for a lexeme in quotes, where `byte` opens one. -/
def scan_delimited (cursor : Cursor) (byte : UInt8) : Option (Scan (Token × Cursor)) :=
  let literals := features.string_literals
  let string (close : UInt8) : QuoteScan :=
    ⟨close, .String, .UnterminatedString, literals.backslash_escapes, false⟩
  if byte == ascii single_quote then some (scan_quoted cursor (string byte))
  else if byte == ascii '"' && literals.double_quoted_strings then
    some (scan_quoted cursor (string byte))
  else
    (opening_identifier_quote features byte).map fun close =>
      scan_quoted cursor ⟨close, .QuotedIdent, .UnterminatedQuotedIdent, false,
        features.identifier_syntax.empty_quoted_identifiers⟩

/-- The routine for a lexeme that starts at a sigil, where `byte` is one. -/
def scan_sigil (cursor : Cursor) (byte : UInt8) : Option (Scan (Token × Cursor)) :=
  if byte == ascii '$' then some (scan_dollar unicode features cursor)
  else if byte == ascii '?' then scan_question unicode features cursor
  else if byte == ascii ':' && features.parameters.named_colon &&
      identifier_starts_at unicode features cursor 1 then
    some (scan_parameter unicode features cursor)
  else if byte == ascii '@' then scan_at unicode features cursor
  else none

/-- The routine for the class `byte` is in. -/
def scan_class (cursor : Cursor) (byte : UInt8) : Scan (Token × Cursor) :=
  if features.has_byte_class byte CLASS_IDENTIFIER_START then scan_word unicode features cursor
  else if 0x80 ≤ byte then
    match cursor.char_at 0 with
    | none => .error .panic
    | some c =>
      if is_identifier_start unicode features c then scan_word unicode features cursor
      else lex_error .StrayByte cursor.pos (cursor.pos + c.utf8Size)
  else if is_digit features byte then scan_number unicode features cursor
  else if byte == ascii '.' && (cursor.peek_nth 1).any (is_digit features) then
    scan_number unicode features cursor
  else if byte == ascii '#' && features.expression_syntax.positional_column &&
      (cursor.peek_nth 1).any is_ascii_digit then
    .ok (scan_positional_column cursor)
  else if byte == ascii '#' && features.hash_bitwise_xor then scan_operator features cursor
  else if byte == ascii '`' && features.operator_syntax.custom_operators then
    scan_operator features cursor
  else if features.has_byte_class byte CLASS_OPERATOR then scan_operator features cursor
  else if features.has_byte_class byte CLASS_PUNCTUATION then scan_punctuation features cursor
  else lex_error .StrayByte cursor.pos (cursor.pos + 1)

/-- The lexeme at the cursor, whose first byte is `byte`. -/
def scan_token (cursor : Cursor) (byte : UInt8) : Scan (Token × Cursor) :=
  (((scan_marked unicode features cursor byte).or (scan_delimited features cursor byte)).or
    (scan_sigil unicode features cursor byte)).getD (scan_class unicode features cursor byte)

/-- A token in quotes holds no NUL. -/
def check_nul (start : Cursor) (scanned : Token × Cursor) : Scan (Token × Cursor) :=
  let nul := (start.text_until scanned.2).any (·.byte == 0)
  match scanned.1.kind with
  | .String =>
    if nul then .error (.error ⟨.NulByteInString, scanned.1.span⟩) else .ok scanned
  | .QuotedIdent =>
    if nul then .error (.error ⟨.NulByteInIdentifier, scanned.1.span⟩) else .ok scanned
  | _ => .ok scanned

variable {S : Type} (sink : TriviaSink S)

def next_token (source : List SourceByte) (cursor : Cursor) (trivia : S) (state : LexState) :
    Scan (Option Token × Cursor × S × LexState) := do
  let (start, trivia, state) ← skip_trivia features sink source cursor trivia state
  match start.peek with
  | none =>
    match state.versioned_region_start with
    | some opener => lex_error .UnterminatedBlockComment opener start.pos
    | none => return (none, start, trivia, state)
  | some byte =>
    let (token, stop) ← check_nul start (← scan_token unicode features start byte)
    return (some token, stop, trivia, state)

/-! ## Whole sources -/

/-- Read tokens until the source ends; every turn passes a byte or more. -/
def collect (source : List SourceByte) :
    Nat → Cursor → S → LexState → List Token → Scan (List Token × S)
  | 0, _, trivia, _, tokens => .ok (tokens, trivia)
  | n + 1, cursor, trivia, state, tokens => do
    let (token, cursor, trivia, state) ← next_token unicode features sink source cursor trivia state
    match token with
    | some token => collect source n cursor trivia state (tokens ++ [token])
    | none => return (tokens, trivia)

def collect_all (source : List SourceByte) (trivia : S) : Scan (List Token × S) :=
  if source.length > 2 ^ 32 - 1 then lex_error .SourceTooLong 0 0
  else
    collect unicode features sink source (source.length + 1) (.new source) trivia ⟨none⟩ []

end

def tokenize_with (unicode : Unicode) (source : List Char) (features : FeatureSet) :
    Scan (List Token) :=
  (collect_all unicode features NoTrivia (encode source) ()).map Prod.fst

def tokenize_with_trivia (unicode : Unicode) (source : List Char) (features : FeatureSet) :
    Scan (List Token × List TriviaRange) :=
  collect_all unicode features Recorded (encode source) []

end squonk.tokenizer.scan
