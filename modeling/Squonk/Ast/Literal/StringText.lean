import Squonk.Ast.Literal.Number

/-!
# Strings

The value of a string literal: its segments are cut out of its text one behind the other, and each
is read as the form its first characters say it has. Every delimiter is ASCII, so that the places
that are found in the bytes of a text lie between its characters.
-/

open squonk.dialect squonk.tokenizer

namespace squonk.ast.literal

/-- A character with the property `White_Space`. -/
def is_white_space (c : Char) : Bool :=
  let n := c.toNat
  (9 ≤ n && n ≤ 13) || n == 0x20 || n == 0x85 || n == 0xa0 || n == 0x1680 ||
    (0x2000 ≤ n && n ≤ 0x200a) || n == 0x2028 || n == 0x2029 || n == 0x202f || n == 0x205f ||
    n == 0x3000

def trim_start (text : List Char) : List Char := text.dropWhile is_white_space

/-- The text between two delimiters. -/
def strip_quotes (quote : Char) (text : List Char) : Option (List Char) :=
  match text with
  | first :: rest =>
    if first == quote && rest.getLast? == some quote then some rest.dropLast else none
  | [] => none

/-! ## Standard strings -/

/-- The escape whose backslash has been read. -/
def consume_mysql_escape (body out : List Char) : List Char × List Char :=
  match body with
  | [] => ([], out ++ [backslash])
  | c :: rest =>
    if c == '0' then (rest, out ++ [Char.ofNat 0])
    else if c == 'b' then (rest, out ++ [Char.ofNat 0x08])
    else if c == 'n' then (rest, out ++ [Char.ofNat 0x0a])
    else if c == 'r' then (rest, out ++ [Char.ofNat 0x0d])
    else if c == 't' then (rest, out ++ [Char.ofNat 0x09])
    else if c == 'Z' then (rest, out ++ [Char.ofNat 0x1a])
    else if c == '%' || c == '_' then (rest, out ++ [backslash, c])
    else (rest, out ++ [c])

/-- The walk over the body of a standard string; a turn passes a character or more. -/
def scan_standard_string (quote : Char) (backslash_escapes : Bool) :
    Nat → List Char → List Char → Value (List Char)
  | _, [], out => .ok out
  | 0, _ :: _, _ => .error .panic
  | n + 1, c :: rest, out =>
    if c == backslash && backslash_escapes then
      let (rest, out) := consume_mysql_escape rest out
      scan_standard_string quote backslash_escapes n rest out
    else if c == quote then
      if rest.head? == some quote then
        scan_standard_string quote backslash_escapes n (rest.drop 1) (out ++ [quote])
      else invalid
    else scan_standard_string quote backslash_escapes n rest (out ++ [c])

def materialize_standard_string (body : List Char) (quote : Char) (backslash_escapes : Bool) :
    Value (List Char) :=
  if !body.contains quote && !(backslash_escapes && body.contains backslash) then .ok body
  else scan_standard_string quote backslash_escapes body.length body []

/-! ## Unicode strings -/

/-- The index of the quote that ends the text behind its opening one. -/
def terminating_quote (quote : Char) : Nat → List Char → Option Nat
  | _, [] => none
  | index, c :: rest =>
    if c == quote then
      match rest with
      | [] => some index
      | c' :: rest =>
        if c' == quote then terminating_quote quote (index + 2) rest else some index
    else terminating_quote quote (index + 1) rest

def is_legal_uescape_char (c : Char) : Bool :=
  !(is_radix_digit c 16 || c == '+' || c == single_quote || c == '"' || is_white_space c)

/-- The escape character that the argument of `UESCAPE` names. -/
def parse_uescape_argument (arg : List Char) : Option Char := do
  let inner ← strip_quotes single_quote arg
  match materialize_standard_string inner single_quote false with
  | .ok [escape] => if is_legal_uescape_char escape then some escape else none
  | _ => none

def uescape_char (tail : List Char) : Option Char :=
  if (tail.take 7).map Char.toUpper == "UESCAPE".toList then
    parse_uescape_argument (trim_start (tail.drop 7))
  else none

/-- The body of a Unicode string and the character that begins its escapes. -/
def unicode_lexeme_body (text : List Char) (quote : Char) : Option (List Char × Char) :=
  match text with
  | marker :: amp :: first :: rest =>
    if (marker == 'U' || marker == 'u') && amp == '&' && first == quote then do
      let close ← terminating_quote quote 0 rest
      let tail := trim_start (rest.drop (close + 1))
      let escape ← if tail.isEmpty then some backslash else uescape_char tail
      some (rest.take close, escape)
    else none
  | _ => none

/-- The number that the next digits are, and what follows them. -/
def read_unicode_hex (text : List Char) (width : Nat) : Option (Nat × List Char) :=
  let digits := text.take width
  if digits.length == width && digits.all (is_radix_digit · 16) then
    some (digits_value 16 digits, text.drop width)
  else none

def push_code_point (out : List Char) (code_point : Nat) : Option (List Char) := do
  if code_point == 0 then none
  return out ++ [← escape.char_from_u32 code_point]

def is_high_surrogate (code_point : Nat) : Bool := 0xd800 ≤ code_point && code_point ≤ 0xdbff

def is_low_surrogate (code_point : Nat) : Bool := 0xdc00 ≤ code_point && code_point ≤ 0xdfff

/-- The escape whose escape character has been read. -/
def consume_unicode_lexeme_escape (escape : Char) (body out : List Char) :
    Option (List Char × List Char) :=
  match body with
  | [] => none
  | c :: rest =>
    if c == escape then some (rest, out ++ [escape])
    else if c == '+' then do
      let (code_point, rest) ← read_unicode_hex rest 6
      return (rest, ← push_code_point out code_point)
    else do
      let (code_point, rest) ← read_unicode_hex body 4
      if is_high_surrogate code_point then
        if rest.head? != some escape then none
        let (low, rest) ← read_unicode_hex (rest.drop 1) 4
        if !is_low_surrogate low then none
        return (rest, ← push_code_point out
          (0x10000 + (code_point - 0xd800) * 1024 + (low - 0xdc00)))
      else return (rest, ← push_code_point out code_point)

/-- The walk over the body of a Unicode string; a turn passes a character or more. -/
def scan_unicode_escape_string (escape quote : Char) :
    Nat → List Char → List Char → Value (List Char)
  | _, [], out => .ok out
  | 0, _ :: _, _ => .error .panic
  | n + 1, c :: rest, out =>
    if c == quote then
      if rest.head? == some quote then
        scan_unicode_escape_string escape quote n (rest.drop 1) (out ++ [quote])
      else invalid
    else if c == escape then
      match consume_unicode_lexeme_escape escape rest out with
      | some (rest, out) => scan_unicode_escape_string escape quote n rest out
      | none => invalid
    else scan_unicode_escape_string escape quote n rest (out ++ [c])

def materialize_unicode_string (body : List Char) (escape : Char) : Value (List Char) :=
  if !body.contains escape && !body.contains single_quote then .ok body
  else scan_unicode_escape_string escape single_quote body.length body []

/-! ## Dollar quotes -/

def is_dollar_tag_start (c : Char) : Bool := c == '_' || c.isAlpha || 0x80 ≤ c.toNat

def is_dollar_tag_continue (c : Char) : Bool := is_dollar_tag_start c || c.isDigit

/-- The length of the delimiter that opens the text, where one does. -/
def dollar_open_delim_len (text : List Char) : Option Nat :=
  match text with
  | '$' :: '$' :: _ => some 2
  | '$' :: first :: rest =>
    if is_dollar_tag_start first then
      let tag := rest.takeWhile is_dollar_tag_continue
      if rest[tag.length]? == some '$' then some (tag.length + 3) else none
    else none
  | _ => none

def dollar_quoted_body (text : List Char) : Option (List Char) := do
  let delim_len ← dollar_open_delim_len text
  if text.length < delim_len * 2 then none
  let close_start := text.length - delim_len
  if text.take delim_len != text.drop close_start then none
  return (text.drop delim_len).take (close_start - delim_len)

/-! ## Segments -/

/-- The length of the character set in front of a string, with its underscore. -/
def charset_introducer_quote_offset (text : List Char) : Option Nat :=
  match text with
  | '_' :: rest =>
    let name := rest.takeWhile fun c => c.isAlphanum || c == '_'
    if name.isEmpty then none
    else
      match rest[name.length]? with
      | some quote =>
        if quote == single_quote || quote == '"' then some (name.length + 1) else none
      | none => none
  | _ => none

/-- How far behind its opening quote a segment goes. -/
def segment_len (quote : Char) (backslash_escapes : Bool) : List Char → Option Nat
  | [] => none
  | c :: rest =>
    if c == backslash && backslash_escapes then
      match rest with
      | [] => none
      | _ :: rest => (segment_len quote backslash_escapes rest).map (· + 2)
    else if c == quote then
      match rest with
      | [] => some 1
      | c' :: rest =>
        if c' == quote then (segment_len quote backslash_escapes rest).map (· + 2) else some 1
    else (segment_len quote backslash_escapes rest).map (· + 1)

/-- The place of the opening quote of the first segment, and whether it has escapes of its own. -/
def segment_open (text : List Char) : Option (Nat × Bool) :=
  match text with
  | first :: rest =>
    let quoted := rest.head? == some single_quote
    if (first == 'E' || first == 'e') && quoted then some (1, true)
    else if (first == 'N' || first == 'n') && quoted then some (1, false)
    else if (first == 'U' || first == 'u') && rest.head? == some '&' &&
        rest[1]? == some single_quote then some (2, false)
    else if (first == 'B' || first == 'b' || first == 'X' || first == 'x') && quoted then
      some (1, false)
    else if first == single_quote || first == '"' then some (0, false)
    else if first == '_' then (charset_introducer_quote_offset text).map (·, false)
    else none
  | [] => none

def first_segment_end (text : List Char) (dialect_backslash : Bool) : Option Nat := do
  let (quote_at, prefix_backslash) ← segment_open text
  let quote ← text[quote_at]?
  let len ← segment_len quote (prefix_backslash || dialect_backslash) (text.drop (quote_at + 1))
  return quote_at + 1 + len

inductive StringLiteralBody
  | Standard (body : List Char)
  | PostgresEscape (body : List Char)
  | DollarQuoted (body : List Char)
  | Unicode (body : List Char) (escape : Char)

/-- The body of an escape or a national string. -/
def marked_body (lower upper : Char) (text : List Char) : Option (List Char) :=
  match text with
  | marker :: quote :: last :: rest =>
    if (marker == lower || marker == upper) && quote == single_quote &&
        (last :: rest).getLast? == some single_quote then some (last :: rest).dropLast
    else none
  | _ => none

def string_literal_body (text : List Char) : Option StringLiteralBody :=
  if let some body := strip_quotes single_quote text then some (.Standard body)
  else if let some body := strip_quotes '"' text then some (.Standard body)
  else if let some body := marked_body 'e' 'E' text then some (.PostgresEscape body)
  else if let some body := marked_body 'n' 'N' text then some (.Standard body)
  else
    let introduced := (charset_introducer_quote_offset text).bind fun quote_at =>
      (strip_quotes single_quote (text.drop quote_at)).or (strip_quotes '"' (text.drop quote_at))
    if let some body := introduced then some (.Standard body)
    else if let some (body, escape) := unicode_lexeme_body text single_quote then
      some (.Unicode body escape)
    else (dollar_quoted_body text).map .DollarQuoted

def string_literal_embeds_nul (text : List Char) : Bool := text.contains (Char.ofNat 0)

def materialize_string (text : List Char) (backslash_escapes : Bool) : Value (List Char) :=
  if string_literal_embeds_nul text then invalid
  else
    match string_literal_body text with
    | none => invalid
    | some (.Standard body) =>
      materialize_standard_string body (text.getLast?.getD single_quote) backslash_escapes
    | some (.PostgresEscape body) => materialize_postgres_escape_string (encode body)
    | some (.DollarQuoted body) => .ok body
    | some (.Unicode body escape) => materialize_unicode_string body escape

/-- Whether the text begins with the quote of a segment that continues a string. -/
def opens_segment (text : List Char) : Bool :=
  text.head? == some single_quote || text.head? == some '"'

/-- The values of the segments of the text; a turn passes one. -/
def materialize_segments (backslash_escapes : Bool) :
    Nat → List Char → List Char → Value (List Char)
  | 0, _, _ => .error .panic
  | n + 1, rest, out =>
    match first_segment_end rest backslash_escapes with
    | none => invalid
    | some stop => do
      let out := out ++ (← materialize_string (rest.take stop) backslash_escapes)
      let rest := trim_start (rest.drop stop)
      if rest.isEmpty then return out
      else materialize_segments backslash_escapes n rest out

def materialize_concatenated_string (text : List Char) (backslash_escapes : Bool) :
    Value (List Char) :=
  match first_segment_end text backslash_escapes with
  | none => materialize_string text backslash_escapes
  | some first_end =>
    if opens_segment (trim_start (text.drop first_end)) then
      materialize_segments backslash_escapes text.length text []
    else materialize_string text backslash_escapes

/-! ## Accessors -/

/-- How an accessor fails. -/
inductive AccessFault
  | error (error : LiteralValueError)
  | panic
  deriving DecidableEq

namespace Literal

/-- The value of the text, or the error of a literal that is no string. -/
def string_value (self : Literal) (value : Value (List Char)) : Except AccessFault (List Char) :=
  match value with
  | .ok text => .ok text
  | .error .invalid => .error (.error (self.error .InvalidString))
  | .error .panic => .error .panic

def as_str_in (self : Literal) (source : List SourceByte) (backslash_escapes : Bool) :
    Except AccessFault (List Char) := do
  (self.expect_kind .String (self.kind == .String)).mapError .error
  let text ← (self.source_text source).mapError .error
  self.string_value (materialize_concatenated_string text backslash_escapes)

def as_str (self : Literal) (source : List SourceByte) : Except AccessFault (List Char) :=
  self.as_str_in source false

end Literal

end squonk.ast.literal
