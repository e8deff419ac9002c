import Mathlib.Data.List.DropRight
import Squonk.Dialect.Feature

/-!
# The scanner

How a source is cut into tokens. Prefixed strings, parameters, session variables, stage
references, money, exponents, digit separators and names outside ASCII are not read here: the
scanner gives up on them.
-/

open squonk.ast squonk.dialect

namespace squonk.tokenizer

/-! ## Characters -/

def single_quote : Char := Char.ofNat 39

def backslash : Char := Char.ofNat 92

def is_whitespace (c : Char) : Bool :=
  c == ' ' || c == '\t' || c == '\n' || c == '\r' || c == Char.ofNat 12

def is_identifier_start (c : Char) : Bool := c == '_' || c.isAlpha

def is_identifier_continue (features : FeatureSet) (c : Char) : Bool :=
  is_identifier_start c || c.isDigit ||
    features.identifier_syntax.dollar_in_identifiers && c == '$'

/-- The characters that start an operator in every dialect. -/
def is_operator (c : Char) : Bool := "+-*/%=<>!|&^~".toList.contains c

/-- The characters a symbolic operator is built from where any run of them is one. -/
def is_operator_char (features : FeatureSet) (c : Char) : Bool :=
  if c == '#' then !features.expression_syntax.positional_column
  else if c == '?' then !features.parameters.anonymous_question
  else "~!@^&|`+-*/%<>=".toList.contains c

/-- The characters that let a run end in a sign. -/
def operator_char_allows_trailing_sign (c : Char) : Bool := "~!@#^&|`?%".toList.contains c

def is_sign_char (c : Char) : Bool := c == '+' || c == '-'

/-! ## Operators -/

def Operator.text : Operator → List Char
  | .Plus => ['+'] | .Minus => ['-'] | .Star => ['*'] | .Slash => ['/']
  | .SlashSlash => ['/', '/'] | .Percent => ['%'] | .Eq => ['='] | .EqEq => ['=', '=']
  | .Lt => ['<'] | .LtEq => ['<', '='] | .Gt => ['>'] | .GtEq => ['>', '=']
  | .NotEq .AngleBracket => ['<', '>'] | .NotEq .Bang => ['!', '='] | .LtEqGt => ['<', '=', '>']
  | .Concat => ['|', '|'] | .AmpAmp => ['&', '&'] | .Bang => ['!'] | .Pipe => ['|']
  | .Amp => ['&'] | .Caret => ['^'] | .CaretAt => ['^', '@'] | .Tilde => ['~']
  | .ShiftLeft => ['<', '<'] | .ShiftRight => ['>', '>'] | .Hash => ['#']
  | .Arrow => ['=', '>'] | .ColonEquals => [':', '='] | .AtGt => ['@', '>'] | .LtAt => ['<', '@']
  | .MinusGt => ['-', '>'] | .MinusGtGt => ['-', '>', '>'] | .PipeArrow => ['|', '>']
  | .Question => ['?'] | .QuestionPipe => ['?', '|'] | .QuestionAmp => ['?', '&']
  | .AtQuestion => ['@', '?'] | .AtAt => ['@', '@'] | .HashGt => ['#', '>']
  | .HashGtGt => ['#', '>', '>'] | .HashMinus => ['#', '-'] | .Custom text => text

/-- The operators with a token of their own, longer spellings first. -/
def known_operators (features : FeatureSet) : List Operator :=
  let gated (on : Bool) (ops : List Operator) := bif on then ops else []
  let jsonb := features.operator_syntax.jsonb_operators
  gated features.operator_syntax.null_safe_equals [.LtEqGt] ++
  gated features.operator_syntax.json_arrow_operators [.MinusGtGt] ++
  gated jsonb [.HashGtGt] ++
  [.LtEq, .GtEq, .NotEq .AngleBracket, .NotEq .Bang, .ShiftLeft, .ShiftRight, .Concat, .AmpAmp] ++
  gated jsonb [.QuestionPipe, .QuestionAmp, .AtQuestion, .AtAt, .HashGt, .HashMinus] ++
  gated features.operator_syntax.containment_operators [.AtGt, .LtAt] ++
  gated features.operator_syntax.json_arrow_operators [.MinusGt] ++
  gated features.call_syntax.named_argument [.Arrow] ++
  gated features.query_tail_syntax.pipe_syntax [.PipeArrow] ++
  gated features.operator_syntax.double_equals [.EqEq] ++
  gated features.operator_syntax.integer_divide_slash [.SlashSlash] ++
  gated features.operator_syntax.starts_with_operator [.CaretAt] ++
  [.Plus, .Minus, .Star, .Slash, .Percent, .Caret, .Lt, .Gt, .Eq, .Tilde, .Bang, .Amp, .Pipe] ++
  gated features.hash_bitwise_xor [.Hash] ++ gated jsonb [.Question]

def known_operator_token (features : FeatureSet) (run : List Char) : Option Operator :=
  (known_operators features).find? fun op => op.text == run

/-- Whether a comment starts at `c`. -/
def starts_comment (c : Char) (cs : List Char) : Bool :=
  c == '-' && cs.head? == some '-' || c == '/' && cs.head? == some '*'

/-- The operator characters of a run behind its first one, up to a comment. -/
def operator_run (features : FeatureSet) : List Char → List Char
  | [] => []
  | c :: cs =>
    if is_operator_char features c && !starts_comment c cs then c :: operator_run features cs
    else []

/-- The run at `lead` that is one operator: signs at its end belong to it only if a character
    of the run allows them. -/
def custom_operator_run (features : FeatureSet) (lead : Char) (cs : List Char) : List Char :=
  let run := operator_run features cs
  if (lead :: run).any operator_char_allows_trailing_sign then lead :: run
  else lead :: run.rdropWhile is_sign_char

def scan_custom_operator (features : FeatureSet) (lead : Char) (cs : List Char) :
    Operator × List Char :=
  let run := custom_operator_run features lead cs
  match known_operator_token features run with
  | some op => (op, cs.drop (run.length - 1))
  | none => if run == ['=', '>'] then (.Eq, cs) else (.Custom run, cs.drop (run.length - 1))

def scan_operator (features : FeatureSet) (lead : Char) (cs : List Char) :
    Option (Token × List Char) :=
  if features.operator_syntax.custom_operators then
    let (op, rest) := scan_custom_operator features lead cs
    some (.operator op, rest)
  else
    ((known_operators features).find? fun op => op.text.isPrefixOf (lead :: cs)).map fun op =>
      (.operator op, (lead :: cs).drop op.text.length)

/-! ## Words, numbers and quoted text -/

def lookup_keyword (word : List Char) : Option Keyword :=
  Keyword.all.find? fun k => k.as_str.toList == word.map Char.toLower

def scan_word (features : FeatureSet) (c : Char) (cs : List Char) : Token × List Char :=
  let text := c :: cs.takeWhile (is_identifier_continue features)
  let rest := cs.dropWhile (is_identifier_continue features)
  match lookup_keyword text with
  | some keyword => (.keyword keyword, rest)
  | none => (.word text, rest)

/-- The digits of a number with an optional fraction, and what follows. -/
def eat_fixed_point (cs : List Char) : List Char × List Char :=
  match cs.dropWhile Char.isDigit with
  | '.' :: rest =>
    (cs.takeWhile Char.isDigit ++ '.' :: rest.takeWhile Char.isDigit,
      rest.dropWhile Char.isDigit)
  | rest => (cs.takeWhile Char.isDigit, rest)

/-- A radix, an exponent, a separator and trailing junk all start like a name. -/
def scan_number (cs : List Char) : Option (Token × List Char) :=
  let (text, rest) := eat_fixed_point cs
  if rest.head?.any is_identifier_start then none else some (.number text, rest)

/-- The body of a quoted lexeme with its closing delimiter. A doubled delimiter does not close
    it, nor does one behind a backslash where backslashes escape. -/
def scan_quoted_body (close : Char) (escapes : Bool) : List Char → Option (List Char × List Char)
  | [] => none
  | c :: cs =>
    if c == backslash && escapes then
      match cs with
      | [] => none
      | d :: cs => (scan_quoted_body close escapes cs).map fun (body, rest) =>
          (c :: d :: body, rest)
    else if c == close then
      match cs with
      | [] => some ([c], [])
      | d :: cs =>
        if d == close then
          (scan_quoted_body close escapes cs).map fun (body, rest) => (c :: d :: body, rest)
        else some ([c], d :: cs)
    else (scan_quoted_body close escapes cs).map fun (body, rest) => (c :: body, rest)

/-- Whether a string closed in front of `cs` goes on behind a line break. -/
def extends_string (close : Char) (cs : List Char) : Bool :=
  let blank (c : Char) := is_whitespace c || c == Char.ofNat 11
  (cs.takeWhile blank).any (fun c => c == '\n' || c == '\r') &&
    (cs.dropWhile blank).head?.any fun c => c == single_quote || c == close

def scan_string (features : FeatureSet) (quote : Char) (cs : List Char) :
    Option (Token × List Char) :=
  let escapes := features.string_literals.backslash_escapes
  match scan_quoted_body quote escapes cs with
  | none => none
  | some (body, rest) =>
    if body.contains (Char.ofNat 0) || escapes && extends_string quote rest then none
    else some (.string (quote :: body), rest)

def opening_identifier_quote (features : FeatureSet) (c : Char) : Option Char :=
  (features.identifier_quotes.find? fun style => style.1 == c).map Prod.snd

def scan_quoted_ident (features : FeatureSet) (quote close : Char) (cs : List Char) :
    Option (Token × List Char) :=
  match scan_quoted_body close false cs with
  | none => none
  | some (body, rest) =>
    if body.contains (Char.ofNat 0) ||
        body == [close] && !features.identifier_syntax.empty_quoted_identifiers then
      none
    else some (.quoted_ident (quote :: body), rest)

/-! ## One token -/

/-- Whether a word is the marker of a string that follows it at once. -/
def opens_prefixed_string (features : FeatureSet) (c : Char) (cs : List Char) : Bool :=
  let literals := features.string_literals
  let quoted := cs.head? == some single_quote
  let behind_name := (cs.dropWhile (is_identifier_continue features)).head?
  match c.toLower with
  | 'e' => literals.escape_strings && quoted
  | 'n' => literals.national_strings && quoted
  | 'u' => literals.unicode_strings && cs.head? == some '&' &&
      (cs.tail.head? == some single_quote || cs.tail.head? == some '"')
  | 'x' => (literals.blob_literals || literals.bit_string_literals) && quoted
  | 'b' => literals.bit_string_literals && quoted
  | '_' => literals.charset_introducers &&
      (behind_name == some single_quote || behind_name == some '"')
  | _ => false

/-- Whether the sign at `c` belongs to a parameter, a variable or a stage reference. -/
def opens_sigil (features : FeatureSet) (c : Char) (cs : List Char) : Bool :=
  let named (cs : List Char) := cs.head?.any is_identifier_start
  match c with
  | '$' => true
  | '?' => features.parameters.anonymous_question || cs.head?.any Char.isDigit
  | ':' => features.parameters.named_colon && named cs
  | '#' => features.expression_syntax.positional_column && cs.head?.any Char.isDigit
  | '@' =>
    features.utility_syntax.stage_references &&
        (cs.head? == some '~' || cs.head? == some '%' || named cs) ||
      features.session_variables.system_variables && cs.head? == some '@' && named cs.tail ||
      (features.session_variables.user_variables || features.parameters.named_at) && named cs
  | _ => false

/-- Whether the character outside the operator class starts an operator here. -/
def opens_operator (features : FeatureSet) (c : Char) (cs : List Char) : Bool :=
  match c with
  | '?' => features.operator_syntax.jsonb_operators
  | '@' =>
    features.operator_syntax.containment_operators && cs.head? == some '>' ||
      features.operator_syntax.jsonb_operators &&
        (cs.head? == some '?' || cs.head? == some '@') ||
      features.operator_syntax.custom_operators
  | '#' => features.hash_bitwise_xor
  | '`' => features.operator_syntax.custom_operators
  | _ => is_operator c

def scan_punctuation (features : FeatureSet) (c : Char) (cs : List Char) :
    Option (Token × List Char) :=
  match c with
  | '(' => some (.lparen, cs)
  | ')' => some (.rparen, cs)
  | ',' => some (.comma, cs)
  | ';' => some (.punctuation .Semicolon, cs)
  | '.' => some (.punctuation .Dot, cs)
  | '[' => some (.punctuation .LBracket, cs)
  | ']' => some (.punctuation .RBracket, cs)
  | '{' => some (.punctuation .LBrace, cs)
  | '}' => some (.punctuation .RBrace, cs)
  | ':' =>
    if cs.head? == some ':' then some (.punctuation .DoubleColon, cs.tail)
    else if (features.call_syntax.named_argument || features.session_variables.variable_assignment)
        && cs.head? == some '=' then
      some (.operator .ColonEquals, cs.tail)
    else some (.punctuation .Colon, cs)
  | '@' => if features.session_variables.user_variables then some (.punctuation .At, cs) else none
  | _ => none

/-- The token at `c`. -/
def scan_token (features : FeatureSet) (c : Char) (cs : List Char) : Option (Token × List Char) :=
  if opens_prefixed_string features c cs then none
  else if c == single_quote || c == '"' && features.string_literals.double_quoted_strings then
    scan_string features c cs
  else
    match opening_identifier_quote features c with
    | some close => scan_quoted_ident features c close cs
    | none =>
      if opens_sigil features c cs then none
      else if is_identifier_start c then some (scan_word features c cs)
      else if c.isDigit || c == '.' && cs.head?.any Char.isDigit then scan_number (c :: cs)
      else if opens_operator features c cs then scan_operator features c cs
      else scan_punctuation features c cs

/-! ## Comments -/

def skip_line_comment (features : FeatureSet) (cs : List Char) : List Char :=
  cs.dropWhile fun c =>
    c != '\n' && !(features.comment_syntax.line_comment_ends_at_carriage_return && c == '\r')

/-- The input behind a block comment that is `depth` openers deep. -/
def skip_block_comment (nested silent_eof : Bool) : Nat → List Char → Option (List Char)
  | _, [] => if silent_eof then some [] else none
  | depth, c :: cs =>
    match cs with
    | [] => if silent_eof then some [] else none
    | d :: rest =>
      if c == '/' && d == '*' && nested then skip_block_comment nested silent_eof (depth + 1) rest
      else if c == '*' && d == '/' then
        if depth == 1 then some rest
        else skip_block_comment nested silent_eof (depth - 1) rest
      else skip_block_comment nested silent_eof depth (d :: rest)

/-- The input behind the blanks or the comment at `c`, and nothing where a token starts. A
    comment that does not end is an error, as is one with a NUL in it. -/
def skip_trivia (features : FeatureSet) (c : Char) (cs : List Char) :
    Option (Option (List Char)) :=
  let comments := features.comment_syntax
  let nul_free (rest : List Char) :=
    !((c :: cs).take (cs.length + 1 - rest.length)).contains (Char.ofNat 0)
  if is_whitespace c then some (some (cs.dropWhile is_whitespace))
  else if c == '-' && cs.head? == some '-' || c == '#' && comments.line_comment_hash then
    let rest := skip_line_comment features cs
    if nul_free rest then some (some rest) else none
  else if c == '/' && cs.head? == some '*' &&
      !(comments.unterminated_block_comment_at_eof && cs.tail.isEmpty) then
    if comments.versioned_comments.isSome && cs.tail.head? == some '!' then none
    else
      match skip_block_comment comments.nested_block_comments
          comments.unterminated_block_comment_at_eof 1 cs.tail with
      | none => none
      | some rest => if nul_free rest then some (some rest) else none
  else some none

/-! ## The whole source -/

/-- Read tokens until the source ends; each turn passes some trivia or one token. -/
def next_tokens (features : FeatureSet) : Nat → List Char → Option (List Token)
  | 0, _ => none
  | _ + 1, [] => some []
  | n + 1, c :: cs =>
    match skip_trivia features c cs with
    | none => none
    | some (some rest) => next_tokens features n rest
    | some none =>
      match scan_token features c cs with
      | none => none
      | some (token, rest) => (next_tokens features n rest).map (token :: ·)

def tokenize (features : FeatureSet) (source : List Char) : Option (List Token) :=
  next_tokens features (source.length + 1) source

end squonk.tokenizer
