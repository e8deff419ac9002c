import Squonk.Dialect.Conflict
import Squonk.Tokenizer.Dispatch

/-!
# Readings

What the features let a lexeme be read as: a reading is open at a cursor when the guards of one of
the arms that call its routine are.
-/

open squonk.dialect squonk.dialect.lex_class

namespace squonk.tokenizer.scan

/-! ## Guards -/

/-- The readings a feature, a delimiter or a byte class gates. -/
inductive Reading
  | HashComment | VersionedComment | EscapeString | NationalString | UnicodeString | UnicodeIdent
  | HexBlob | BitString | CharsetString | DoubleQuotedString | QuotedIdent | Money | Parameter
  | DollarQuotedString | StageReference | SessionVariable | Word | PositionalColumn | Operator
  deriving DecidableEq

section
variable (unicode : Unicode) (features : FeatureSet)

/-- Whether an arm that reads in this way is open at the cursor, whose first byte is `byte`. -/
def Reading.applies (cursor : Cursor) (byte : UInt8) (reading : Reading) : Bool :=
  let literals := features.string_literals
  let parameters := features.parameters
  let operators := features.operator_syntax
  let session := features.session_variables
  let marker (c : Char) : Bool := byte == ascii c || byte == ascii c.toLower
  let follows (n : Nat) (c : Char) : Bool := cursor.peek_nth n == some (ascii c)
  let digit_follows := (cursor.peek_nth 1).any is_ascii_digit
  let named (n : Nat) := identifier_starts_at unicode features cursor n
  match reading with
  | .HashComment => byte == ascii '#' && features.comment_syntax.line_comment_hash
  | .VersionedComment =>
    byte == ascii '/' && features.comment_syntax.versioned_comments.isSome && follows 1 '*' &&
      follows 2 '!'
  | .EscapeString => marker 'E' && literals.escape_strings && follows 1 single_quote
  | .NationalString => marker 'N' && literals.national_strings && follows 1 single_quote
  | .UnicodeString =>
    marker 'U' && literals.unicode_strings && follows 1 '&' && follows 2 single_quote
  | .UnicodeIdent => marker 'U' && literals.unicode_strings && follows 1 '&' && follows 2 '"'
  | .HexBlob => marker 'X' && literals.blob_literals && follows 1 single_quote
  | .BitString =>
    (marker 'B' || marker 'X') && literals.bit_string_literals && follows 1 single_quote
  | .CharsetString =>
    byte == ascii '_' && literals.charset_introducers &&
      ( charset_introducer_prefix features cursor).isSome
  | .DoubleQuotedString => byte == ascii '"' && literals.double_quoted_strings
  | .QuotedIdent => (opening_identifier_quote features byte).isSome
  | .Money =>
    byte == ascii '$' && features.numeric_literals.money_literals && money_follows features cursor
  | .Parameter =>
    byte == ascii '$' &&
        (parameters.positional_dollar && digit_follows || parameters.named_dollar && named 1) ||
      byte == ascii '?' &&
        (parameters.anonymous_question || parameters.numbered_question && digit_follows) ||
      byte == ascii ':' && parameters.named_colon && named 1 ||
      byte == ascii '@' && parameters.named_at && named 1
  | .DollarQuotedString => byte == ascii '$' && literals.dollar_quoted_strings
  | .StageReference =>
    byte == ascii '@' && features.utility_syntax.stage_references &&
      (follows 1 '~' || follows 1 '%' || named 1)
  | .SessionVariable =>
    byte == ascii '@' &&
      (session.system_variables && follows 1 '@' && named 2 ||
        session.user_variables && named 1)
  | .Word =>
    features.has_byte_class byte CLASS_IDENTIFIER_START ||
      0x80 ≤ byte && (cursor.char_at 0).any (is_identifier_start unicode features) ||
      byte == ascii '_' && literals.charset_introducers &&
        ( charset_introducer_prefix features cursor).isNone
  | .PositionalColumn =>
    byte == ascii '#' && features.expression_syntax.positional_column && digit_follows
  | .Operator =>
    byte == ascii '?' && operators.jsonb_operators ||
      byte == ascii '@' &&
        (operators.containment_operators && follows 1 '>' ||
          operators.jsonb_operators && (follows 1 '?' || follows 1 '@') ||
          operators.custom_operators) ||
      byte == ascii '#' && features.hash_bitwise_xor ||
      byte == ascii '`' && operators.custom_operators ||
      features.has_byte_class byte CLASS_OPERATOR

end

end squonk.tokenizer.scan
