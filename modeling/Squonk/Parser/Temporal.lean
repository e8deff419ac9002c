import Squonk.Ast.Literal.Temporal
import Squonk.Tokenizer.Lossless

/-!
# Temporal literals in the parser

A type, a precision and a time zone, a value string with what continues it, and the fields of an
interval. The literal keeps the span from the type to the last of these tokens, and its kind.
-/

open squonk.ast.literal squonk.document squonk.tokenizer squonk.tokenizer.scan

namespace squonk.parser.temporal

/-! ## The parser -/

/-- The token behind which the parser stands, and those that follow. -/
structure Position where
  preceding : Span
  rest : List scan.Token

/-- What was expected, and where there is another token in its place. -/
structure ParseError where
  expected : String
  span : Option Span
  deriving DecidableEq

abbrev ParseResult := StateT Position (Except ParseError)

/-- The flags of a dialect that are asked for temporal literals alone. -/
structure TemporalSyntax where
  typed_string_literals : Bool
  typed_interval_literal : Bool
  relaxed_interval_syntax : Bool
  same_line_adjacent_concat : Bool

def union (a b : Span) : Span := ⟨min a.start b.start, max a.stop b.stop⟩

def peek : ParseResult (Option scan.Token) := do return (← get).rest.head?

def advance : ParseResult Unit :=
  modify fun s =>
    match s.rest with
    | [] => s
    | token :: rest => ⟨token.span, rest⟩

def error_at {α : Type} (span : Span) (expected : String) : ParseResult α :=
  throw ⟨expected, some span⟩

def unexpected {α : Type} (expected : String) : ParseResult α := do
  throw ⟨expected, (← peek).map (·.span)⟩

def eat (test : scan.Token → Bool) : ParseResult Bool := do
  if (← peek).any test then
    advance
    return true
  else
    return false

section
variable (source : List SourceByte)

def span_text (span : Span) : List Char := (get source span).getD []

def eq_ignore_ascii_case (text : List Char) (expected : String) : Bool :=
  text.map Char.toLower == expected.toList.map Char.toLower

def token_is_contextual_keyword (expected : String) (token : scan.Token) : Bool :=
  match token.kind with
  | .Word | .Keyword _ => eq_ignore_ascii_case (span_text source token.span) expected
  | _ => false

def eat_contextual_keyword (expected : String) : ParseResult Bool :=
  eat (token_is_contextual_keyword source expected)

def expect_contextual_keyword (expected : String) : ParseResult Unit := do
  if !(← eat_contextual_keyword source expected) then
    unexpected ("`" ++ expected ++ "`")

def is_keyword (name : String) (token : scan.Token) : Bool :=
  match token.kind with
  | .Keyword slot => interner.lookup_keyword name == some slot
  | _ => false

def is_punct (punct : Punctuation) (token : scan.Token) : Bool := token.kind == .Punctuation punct

def eat_keyword (name : String) : ParseResult Bool := eat (is_keyword name)

def eat_punct (punct : Punctuation) : ParseResult Bool := eat (is_punct punct)

def expect_punct (punct : Punctuation) (expected : String) : ParseResult Unit := do
  if !(← eat_punct punct) then
    unexpected expected

/-! ## Types -/

def parse_u32_type_modifier : ParseResult Nat := do
  match ← peek with
  | some token =>
    if token.kind == .Number then
      let text := span_text source token.span
      if !text.all Char.isDigit then
        error_at token.span "an unsigned integer type modifier"
      else
        advance
        let value := digits_value 10 text
        if text.isEmpty || 2 ^ 32 ≤ value then
          error_at token.span "a u32 type modifier"
        else
          return value
    else
      unexpected "an unsigned integer type modifier"
  | none => unexpected "an unsigned integer type modifier"

def parse_optional_single_type_modifier : ParseResult (Option Nat) := do
  if ← eat_punct .LParen then
    let modifier ← parse_u32_type_modifier source
    expect_punct .RParen "`)` to close the type modifier"
    return some modifier
  else
    return none

def parse_optional_time_zone : ParseResult TimeZone := do
  if ← eat_keyword "with" then
    expect_contextual_keyword source "TIME"
    expect_contextual_keyword source "ZONE"
    return .WithTimeZone
  else if ← eat_contextual_keyword source "WITHOUT" then
    expect_contextual_keyword source "TIME"
    expect_contextual_keyword source "ZONE"
    return .WithoutTimeZone
  else
    return .Unspecified

/-! ## The fields of an interval -/

def PLURAL_UNITS : List (String × IntervalFields) :=
  [("YEARS", .Year), ("MONTHS", .Month), ("DAYS", .Day), ("HOURS", .Hour), ("MINUTES", .Minute),
   ("SECONDS", .Second)]

def EXTENDED_UNITS : List (String × IntervalFields) :=
  [("WEEK", .Week), ("WEEKS", .Week), ("QUARTER", .Quarter), ("QUARTERS", .Quarter),
   ("DECADE", .Decade), ("DECADES", .Decade), ("CENTURY", .Century), ("CENTURIES", .Century),
   ("MILLENNIUM", .Millennium), ("MILLENNIA", .Millennium), ("MILLISECOND", .Millisecond),
   ("MILLISECONDS", .Millisecond), ("MICROSECOND", .Microsecond), ("MICROSECONDS", .Microsecond)]

/-- The first of the units that stands here. -/
def eat_unit : List (String × IntervalFields) → ParseResult (Option IntervalFields)
  | [] => return none
  | (spelling, fields) :: units => do
    if ← eat_contextual_keyword source spelling then
      return some fields
    else
      eat_unit units

/-- At most one of two precisions may be written. -/
def coalesce_interval_precision : Option Nat → Option Nat → ParseResult (Option Nat)
  | some precision, none | none, some precision => return some precision
  | none, none => return none
  | some _, some _ => unexpected "only one interval precision"

/-- The end of an interval that goes to its seconds. -/
def finish_interval_to_second (fields : IntervalFields) (leading_precision : Option Nat) :
    ParseResult (Option IntervalFields × Option Nat) := do
  let second_precision ← parse_optional_single_type_modifier source
  let precision ← coalesce_interval_precision leading_precision second_precision
  return (some fields, precision)

def parse_year_fields : ParseResult (Option IntervalFields × Option Nat) := do
  let precision ← parse_optional_single_type_modifier source
  if ← eat_contextual_keyword source "TO" then
    expect_contextual_keyword source "MONTH"
    return (some .YearToMonth, precision)
  else
    return (some .Year, precision)

def parse_day_fields : ParseResult (Option IntervalFields × Option Nat) := do
  let leading_precision ← parse_optional_single_type_modifier source
  if ← eat_contextual_keyword source "TO" then
    if ← eat_contextual_keyword source "HOUR" then
      return (some .DayToHour, leading_precision)
    else if ← eat_contextual_keyword source "MINUTE" then
      return (some .DayToMinute, leading_precision)
    else if ← eat_contextual_keyword source "SECOND" then
      finish_interval_to_second source .DayToSecond leading_precision
    else
      unexpected "`HOUR`, `MINUTE`, or `SECOND`"
  else
    return (some .Day, leading_precision)

def parse_hour_fields : ParseResult (Option IntervalFields × Option Nat) := do
  let leading_precision ← parse_optional_single_type_modifier source
  if ← eat_contextual_keyword source "TO" then
    if ← eat_contextual_keyword source "MINUTE" then
      return (some .HourToMinute, leading_precision)
    else if ← eat_contextual_keyword source "SECOND" then
      finish_interval_to_second source .HourToSecond leading_precision
    else
      unexpected "`MINUTE` or `SECOND`"
  else
    return (some .Hour, leading_precision)

def parse_minute_fields : ParseResult (Option IntervalFields × Option Nat) := do
  let leading_precision ← parse_optional_single_type_modifier source
  if ← eat_contextual_keyword source "TO" then
    expect_contextual_keyword source "SECOND"
    finish_interval_to_second source .MinuteToSecond leading_precision
  else
    return (some .Minute, leading_precision)

/-- The fields that every dialect knows. -/
def parse_standard_fields : ParseResult (Option IntervalFields × Option Nat) := do
  if ← eat_contextual_keyword source "YEAR" then
    parse_year_fields source
  else if ← eat_contextual_keyword source "MONTH" then
    return (some .Month, ← parse_optional_single_type_modifier source)
  else if ← eat_contextual_keyword source "DAY" then
    parse_day_fields source
  else if ← eat_contextual_keyword source "HOUR" then
    parse_hour_fields source
  else if ← eat_contextual_keyword source "MINUTE" then
    parse_minute_fields source
  else if ← eat_contextual_keyword source "SECOND" then
    return (some .Second, ← parse_optional_single_type_modifier source)
  else
    return (none, none)

variable (syn : TemporalSyntax)

def parse_optional_interval_fields : ParseResult (Option IntervalFields × Option Nat) := do
  let unit ←
    if syn.relaxed_interval_syntax then eat_unit source (PLURAL_UNITS ++ EXTENDED_UNITS)
    else pure none
  match unit with
  | some fields => return (some fields, none)
  | none => parse_standard_fields source

/-! ## Value strings -/

def string_literal_is_sconst (text : List Char) : Bool :=
  match text with
  | '_' :: _ => false
  | first :: quote :: _ =>
    !("BbXxNn".toList.contains first && quote == single_quote)
  | _ => true

def is_string (token : scan.Token) : Bool := token.kind == .String

def is_sconst (token : scan.Token) : Bool :=
  is_string token && string_literal_is_sconst (span_text source token.span)

def peek_is_sconst : ParseResult Bool := do return (← peek).any (is_sconst source)

inductive ContinuationGap | Newline | SameLine | NotWhitespace
  deriving DecidableEq

def classify_continuation_gap (gap : List Char) : ContinuationGap :=
  let is_newline (c : Char) : Bool := c == '\n' || c == '\r'
  if gap.all fun c => is_newline c || c == ' ' || c == '\t' || c.toNat == 0x0b || c.toNat == 0x0c then
    if gap.any is_newline then .Newline else .SameLine
  else .NotWhitespace

/-- The span of a string whose first segments have the span, with those that continue it; a turn
    takes one. -/
def consume_string_run : Nat → Span → ParseResult Span
  | 0, span => return span
  | n + 1, span => do
    match ← peek with
    | some next =>
      if is_string next && opens_segment (span_text source next.span) then
        match classify_continuation_gap (span_text source ⟨span.stop, next.span.start⟩) with
        | .Newline =>
          advance
          consume_string_run n (union span next.span)
        | .SameLine =>
          if syn.same_line_adjacent_concat then
            advance
            consume_string_run n (union span next.span)
          else
            error_at next.span "a newline between adjacent string literals"
        | .NotWhitespace => return span
      else
        return span
    | none => return span

def consume_string_continuations (first : Span) : ParseResult Span := do
  if (span_text source first).head? == some '$' then
    return first
  else
    consume_string_run source syn (← get).rest.length first

/-- The span of the value string, whose first token stands here. -/
def consume_temporal_value_string : ParseResult (Option Span) := do
  match ← peek with
  | some value =>
    advance
    return some (← consume_string_continuations source syn value.span)
  | none => return none

/-! ## Literals -/

variable (parse_expr : ParseResult Unit) (parse_float_as_decimal : Bool)

def finish_relaxed_interval_unit : ParseResult LiteralKind := do
  match ← parse_optional_interval_fields source syn with
  | (some fields, precision) => return .Interval (some fields) precision
  | (none, _) => unexpected "an interval unit"

/-- Whether the rest of the grammar reads an expression here. -/
def is_ok (read : ParseResult Unit) : ParseResult Bool := fun s =>
  match read s with
  | .ok ((), s) => .ok (true, s)
  | .error _ => .ok (false, s)

/-- An amount in parentheses with a unit behind it. -/
def parse_parenthesized_amount : ParseResult (Option LiteralKind) := do
  advance
  if ← is_ok parse_expr then
    if ← eat_punct .RParen then
      match ← parse_optional_interval_fields source syn with
      | (some fields, precision) => return some (.Interval (some fields) precision)
      | (none, _) => return none
    else
      return none
  else
    return none

def is_integer (token : scan.Token) : Bool :=
  token.kind == .Number &&
    number_literal_kind (span_text source token.span) parse_float_as_decimal == .Integer

def try_parse_relaxed_interval_amount : ParseResult (Option LiteralKind) := do
  if ← eat (is_integer source parse_float_as_decimal) then
    return some (← finish_relaxed_interval_unit source syn)
  else if (← peek).any (is_punct .LParen) then
    let checkpoint ← get
    match ← parse_parenthesized_amount source syn parse_expr with
    | some kind => return some kind
    | none =>
      set checkpoint
      return none
  else
    return none

/-- The kind of the literal behind the type, and the span of its value string if it has one. -/
def parse_temporal_tail (kind : ParseResult LiteralKind) :
    ParseResult (Option (LiteralKind × Option Span)) := do
  let kind ← kind
  if ← peek_is_sconst source then
    let value ← consume_temporal_value_string source syn
    return some (kind, value)
  else
    return none

inductive TemporalKeyword | Date | Time | Timestamp | Interval
  deriving DecidableEq

def TemporalKeyword.name : TemporalKeyword → String
  | .Date => "date"
  | .Time => "time"
  | .Timestamp => "timestamp"
  | .Interval => "interval"

/-- The literal whose value string is that of an interval. -/
def parse_interval_tail : ParseResult (Option (LiteralKind × Option Span)) := do
  let leading_precision ← parse_optional_single_type_modifier source
  if ← peek_is_sconst source then
    let value ← consume_temporal_value_string source syn
    let (fields, field_precision) ← parse_optional_interval_fields source syn
    let precision ← coalesce_interval_precision leading_precision field_precision
    return some (.Interval fields precision, value)
  else
    return none

/-- The literal behind its keyword. Where there is none the parser goes back in front of the
    keyword, for another reading. -/
def try_parse_temporal_literal (keyword : TemporalKeyword) :
    ParseResult (Option (LiteralKind × Option Span)) := do
  if !syn.typed_string_literals then
    return none
  else
    advance
    match keyword with
    | .Interval =>
      if !syn.typed_interval_literal then
        return none
      else
        let amount ←
          if syn.relaxed_interval_syntax then
            try_parse_relaxed_interval_amount source syn parse_expr parse_float_as_decimal
          else pure none
        match amount with
        | some kind => return some (kind, none)
        | none => parse_interval_tail source syn
    | .Date => parse_temporal_tail source syn (return .Date)
    | .Time => parse_temporal_tail source syn do
        discard (parse_optional_single_type_modifier source)
        return .Time (← parse_optional_time_zone source)
    | .Timestamp => parse_temporal_tail source syn do
        discard (parse_optional_single_type_modifier source)
        return .Timestamp (← parse_optional_time_zone source)

/-- A literal that was read, with the span of its value string. -/
structure Parsed where
  literal : Literal
  value : Option Span

/-- The literal at the keyword at the front of the tokens. -/
def parse_temporal (keyword : TemporalKeyword) : ParseResult (Option Parsed) := do
  match ← peek with
  | some token =>
    match ← try_parse_temporal_literal source syn parse_expr parse_float_as_decimal keyword with
    | some (kind, value) =>
      return some ⟨⟨kind, union token.span (← get).preceding⟩, value⟩
    | none => return none
  | none => return none

end

end squonk.parser.temporal
