import Squonk.Ast.Literal.EscapeString
import Squonk.Document.Node
import Squonk.Tokenizer.Lexeme

/-!
# Numbers

A literal keeps its kind and where it stands. Its value is read from the source when it is asked
for, with the sign, the radix and the separators of a number taken off one after the other.
-/

open squonk.document squonk.tokenizer

namespace squonk.ast.literal

/-! ## Literals -/

inductive TimeZone | Unspecified | WithTimeZone | WithoutTimeZone
  deriving DecidableEq

inductive BitStringRadix | Binary | Hex
  deriving DecidableEq

inductive IntervalFields
  | Year | Month | Day | Hour | Minute | Second
  | YearToMonth | DayToHour | DayToMinute | DayToSecond | HourToMinute | HourToSecond
  | MinuteToSecond
  | Week | Quarter | Decade | Century | Millennium | Millisecond | Microsecond
  | DayToMicrosecond | HourToMicrosecond | MinuteToMicrosecond | SecondToMicrosecond
  deriving DecidableEq

inductive LiteralKind
  | Integer | Float | Decimal | String
  | Boolean (value : Bool)
  | Null | Date
  | Time (time_zone : TimeZone)
  | Timestamp (time_zone : TimeZone)
  | Interval (fields : Option IntervalFields) (precision : Option Nat)
  | BitString (radix : BitStringRadix)
  | Money
  deriving DecidableEq

structure Literal where
  kind : LiteralKind
  span : Span
  deriving DecidableEq

inductive LiteralExpected
  | Integer | DecimalText | String | Boolean | Null | Temporal | BitString | Money
  deriving DecidableEq

inductive LiteralValueErrorKind
  | WrongKind (expected : LiteralExpected) (actual : LiteralKind)
  | MissingSource | InvalidSourceRange | InvalidInteger | InvalidString | InvalidBitString
  | InvalidMoney
  deriving DecidableEq

structure LiteralValueError where
  kind : LiteralValueErrorKind
  span : Span
  deriving DecidableEq

/-- A text that is a part of the source, or one of its own. -/
inductive Cow
  | Borrowed (text : List Char)
  | Owned (text : List Char)
  deriving DecidableEq

def Cow.text : Cow → List Char
  | .Borrowed text => text
  | .Owned text => text

/-- The text of a span that cuts no character. -/
def get (source : List SourceByte) (span : Span) : Option (List Char) :=
  if span.start ≤ span.stop ∧ is_char_boundary source span.start ∧
      is_char_boundary source span.stop then
    some (scan.chars ((source.drop span.start).take (span.stop - span.start)))
  else none

namespace Literal

def error (self : Literal) (kind : LiteralValueErrorKind) : LiteralValueError := ⟨kind, self.span⟩

def source_text (self : Literal) (source : List SourceByte) :
    Except LiteralValueError (List Char) :=
  if self.span.is_synthetic then .error (self.error .MissingSource)
  else
    match get source self.span with
    | some text => .ok text
    | none => .error (self.error .InvalidSourceRange)

def expect_kind (self : Literal) (expected : LiteralExpected) (accepts : Bool) :
    Except LiteralValueError Unit :=
  if accepts then .ok () else .error (self.error (.WrongKind expected self.kind))

end Literal

/-! ## Integers of the machine -/

/-- Whether the character is a digit; the base is 2, 8, 10 or 16. -/
def is_radix_digit (c : Char) (base : Nat) : Bool :=
  match base with
  | 16 => c.isDigit || ('a' ≤ c && c ≤ 'f') || ('A' ≤ c && c ≤ 'F')
  | 8 => '0' ≤ c && c ≤ '7'
  | 2 => c == '0' || c == '1'
  | _ => c.isDigit

def digit_value (c : Char) : Nat :=
  if c.isDigit then c.toNat - '0'.toNat
  else if 'a' ≤ c && c ≤ 'f' then c.toNat - 'a'.toNat + 10
  else c.toNat - 'A'.toNat + 10

/-- The number that digits of the base are. -/
def digits_value (base : Nat) (digits : List Char) : Nat :=
  digits.foldl (fun value c => value * base + digit_value c) 0

/-- The signed integer of a width that the text is, behind a sign where it has one. -/
def from_str_radix (width base : Nat) (text : List Char) : Option Int :=
  let (negative, digits) : Bool × List Char :=
    match text with
    | '-' :: digits => (true, digits)
    | '+' :: digits => (false, digits)
    | digits => (false, digits)
  if digits.isEmpty || !digits.all (is_radix_digit · base) then none
  else
    let magnitude : Int := digits_value base digits
    let value := if negative then -magnitude else magnitude
    if -2 ^ (width - 1) ≤ value ∧ value < 2 ^ (width - 1) then some value else none

def parse_i64 (text : List Char) : Option Int := from_str_radix 64 10 text

/-- The opposite of an integer of 64 bits, where it is one too. -/
def checked_neg (value : Int) : Option Int := if value == -2 ^ 63 then none else some (-value)

/-! ## Values of numbers -/

def split_sign : List Char → List Char × List Char
  | '+' :: unsigned => (['+'], unsigned)
  | '-' :: unsigned => (['-'], unsigned)
  | unsigned => ([], unsigned)

def split_radix_prefix (unsigned : List Char) : Nat × List Char :=
  match unsigned with
  | '0' :: marker :: body =>
    if marker == 'x' || marker == 'X' then (16, body)
    else if marker == 'o' || marker == 'O' then (8, body)
    else if marker == 'b' || marker == 'B' then (2, body)
    else (10, unsigned)
  | _ => (10, unsigned)

/-- Whether every separator of the text, behind the character, stands between two digits. -/
def separators_placed (base : Nat) : Option Char → List Char → Bool
  | _, [] => true
  | before, c :: rest =>
    (c != '_' || before.any (is_radix_digit · base) && rest.head?.any (is_radix_digit · base)) &&
      separators_placed base (some c) rest

def strip_digit_separators (body : List Char) (base : Nat) : Option Cow :=
  if !body.contains '_' then some (.Borrowed body)
  else if separators_placed base none body then some (.Owned (body.filter (· != '_')))
  else none

def materialize_i64 (text : List Char) : Option Int := do
  let (sign, unsigned) := split_sign text
  let (base, body) := split_radix_prefix unsigned
  let digits ← strip_digit_separators body base
  if base == 10 then
    match digits with
    | .Borrowed _ => parse_i64 text
    | .Owned stripped => parse_i64 (sign ++ stripped)
  else
    let value ← from_str_radix 64 base digits.text
    if sign == ['-'] then checked_neg value else some value

def materialize_decimal_text (text : List Char) : Option Cow := do
  let (sign, unsigned) := split_sign text
  let (base, body) := split_radix_prefix unsigned
  let digits ← strip_digit_separators body base
  if base == 10 then
    match digits with
    | .Borrowed _ => some (.Borrowed text)
    | .Owned stripped => some (.Owned (sign ++ stripped))
  else
    let magnitude ← from_str_radix 128 base digits.text
    let value := if sign == ['-'] then -magnitude else magnitude
    some (.Owned (toString value).toList)

def money_body : List Char → Option (List Char)
  | '$' :: body => some body
  | _ => none

namespace Literal

def as_i64 (self : Literal) (source : List SourceByte) : Except LiteralValueError Int := do
  self.expect_kind .Integer (self.kind == .Integer)
  match materialize_i64 (← self.source_text source) with
  | some value => return value
  | none => .error (self.error .InvalidInteger)

def as_decimal_text (self : Literal) (source : List SourceByte) : Except LiteralValueError Cow := do
  self.expect_kind .DecimalText
    (self.kind == .Integer || self.kind == .Float || self.kind == .Decimal)
  match materialize_decimal_text (← self.source_text source) with
  | some text => return text
  | none => .error (self.error .InvalidInteger)

def as_money_text (self : Literal) (source : List SourceByte) : Except LiteralValueError Cow := do
  self.expect_kind .Money (self.kind == .Money)
  match money_body (← self.source_text source) with
  | some body => return .Borrowed body
  | none => .error (self.error .InvalidMoney)

end Literal

/-- The kind of the literal that a number is. -/
def number_literal_kind (text : List Char) (parse_float_as_decimal : Bool) : LiteralKind :=
  let unsigned :=
    match text with
    | '+' :: unsigned => unsigned
    | '-' :: unsigned => unsigned
    | _ => text
  if unsigned.head? == some '$' then .Money
  else if ( split_radix_prefix unsigned).1 != 10 then .Integer
  else if text.any fun c => c == '.' || c == 'e' || c == 'E' then
    if parse_float_as_decimal then .Decimal else .Float
  else .Integer

end squonk.ast.literal
