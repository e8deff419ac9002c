import Squonk.Dialect.LexClass
import Squonk.Tokenizer.Cursor
import Squonk.Tokenizer.Scan

/-!
# Escape strings

Which escape strings are rejected while they are scanned: those with a short or an unassigned
Unicode escape, with an escape for NUL, or whose bytes are no text.
-/

open squonk.dialect

namespace squonk.tokenizer.escape

/-- How many continuation bytes are due, and the range the next one is in. -/
abbrev Utf8Tail := Nat × UInt8 × UInt8

def UTF8_TAIL_START : Utf8Tail := (0, 0x80, 0xBF)

def utf8_tail_push (tail : Utf8Tail) (byte : UInt8) : Option Utf8Tail :=
  let (remaining, lo, hi) := tail
  if remaining > 0 then
    if lo ≤ byte && byte ≤ hi then some (remaining - 1, 0x80, 0xBF) else none
  else if byte ≤ 0x7F then some (0, 0x80, 0xBF)
  else if 0xC2 ≤ byte && byte ≤ 0xDF then some (1, 0x80, 0xBF)
  else if byte == 0xE0 then some (2, 0xA0, 0xBF)
  else if byte == 0xED then some (2, 0x80, 0x9F)
  else if 0xE1 ≤ byte && byte ≤ 0xEF then some (2, 0x80, 0xBF)
  else if byte == 0xF0 then some (3, 0x90, 0xBF)
  else if byte == 0xF4 then some (3, 0x80, 0x8F)
  else if 0xF1 ≤ byte && byte ≤ 0xF3 then some (3, 0x80, 0xBF)
  else none

def utf8_run (tail : Utf8Tail) (bytes : List UInt8) : Option Utf8Tail :=
  bytes.foldlM utf8_tail_push tail

def push_escape_byte (tail : Utf8Tail) (byte : UInt8) : Option Utf8Tail :=
  if byte == 0 then none else utf8_tail_push tail byte

def hex_value (byte : UInt8) : Option Nat :=
  if ascii '0' ≤ byte && byte ≤ ascii '9' then some (byte - ascii '0').toNat
  else if ascii 'a' ≤ byte && byte ≤ ascii 'f' then some ((byte - ascii 'a').toNat + 10)
  else if ascii 'A' ≤ byte && byte ≤ ascii 'F' then some ((byte - ascii 'A').toNat + 10)
  else none

def is_octal_digit (b : SourceByte) : Bool := ascii '0' ≤ b.byte && b.byte ≤ ascii '7'

def consume_octal_escape (body : List SourceByte) (tail : Utf8Tail) :
    Option (List SourceByte × Utf8Tail) := do
  let digits := (body.take 3).takeWhile is_octal_digit
  let value := digits.foldl (fun value b => value * 8 + (b.byte - ascii '0').toNat) 0
  return (body.drop digits.length, ← push_escape_byte tail value.toUInt8)

def consume_escaped_char (body : List SourceByte) (tail : Utf8Tail) :
    Option (List SourceByte × Utf8Tail) := do
  let c ← body.head?.bind (·.char)
  if c.toNat == 0 then none
  return (body.drop c.utf8Size, ← utf8_run tail (String.utf8EncodeChar c))

/-- The escape at an `x`, which is an ordinary character where no digit follows. -/
def consume_hex_escape (body : List SourceByte) (tail : Utf8Tail) :
    Option (List SourceByte × Utf8Tail) :=
  match body[1]?.bind fun b => hex_value b.byte with
  | none => consume_escaped_char body tail
  | some first =>
    match body[2]?.bind fun b => hex_value b.byte with
    | some second => do
      return (body.drop 3, ← push_escape_byte tail (first * 16 + second).toUInt8)
    | none => do return (body.drop 2, ← push_escape_byte tail first.toUInt8)

/-- The character with a number, where there is one. -/
def char_from_u32 (value : Nat) : Option Char :=
  if value.isValidChar then some (Char.ofNat value) else none

/-- The escape at a `u` or a `U`, with `width` digits. -/
def consume_unicode_escape (body : List SourceByte) (tail : Utf8Tail) (width : Nat) :
    Option (List SourceByte × Utf8Tail) := do
  let digits := (body.drop 1).take width
  if digits.length < width then none
  let value ← digits.foldlM (fun value b => (hex_value b.byte).map (value * 16 + ·)) 0
  let c ← char_from_u32 value
  if c.toNat == 0 then none
  return (body.drop (width + 1), ← utf8_run tail (String.utf8EncodeChar c))

/-- The escape whose backslash has been read. -/
def consume_postgres_escape (body : List SourceByte) (tail : Utf8Tail) :
    Option (List SourceByte × Utf8Tail) :=
  match body with
  | [] => none
  | b :: rest =>
    if b.byte == ascii 'b' then (push_escape_byte tail 0x08).map (rest, ·)
    else if b.byte == ascii 'f' then (push_escape_byte tail 0x0c).map (rest, ·)
    else if b.byte == ascii 'n' then (push_escape_byte tail 0x0a).map (rest, ·)
    else if b.byte == ascii 'r' then (push_escape_byte tail 0x0d).map (rest, ·)
    else if b.byte == ascii 't' then (push_escape_byte tail 0x09).map (rest, ·)
    else if is_octal_digit b then consume_octal_escape body tail
    else if b.byte == ascii 'x' then consume_hex_escape body tail
    else if b.byte == ascii 'u' then consume_unicode_escape body tail 4
    else if b.byte == ascii 'U' then consume_unicode_escape body tail 8
    else consume_escaped_char body tail

/-- The walk over the body of an escape string; every turn passes a byte or more. -/
def scan_postgres_escape_string : Nat → List SourceByte → Utf8Tail → Option Utf8Tail
  | 0, _, tail => some tail
  | _ + 1, [], tail => some tail
  | n + 1, b :: rest, tail =>
    if b.byte == ascii single_quote then
      match rest with
      | [] => none
      | b' :: rest =>
        if b'.byte == ascii single_quote then do
          scan_postgres_escape_string n rest (← push_escape_byte tail b'.byte)
        else none
    else if b.byte == ascii backslash then do
      let (rest, tail) ← consume_postgres_escape rest tail
      scan_postgres_escape_string n rest tail
    else do scan_postgres_escape_string n rest (← utf8_tail_push tail b.byte)

/-- The body of a text that is an escape string. -/
def postgres_escape_body (text : List SourceByte) : Option (List SourceByte) :=
  match text.map (·.byte) with
  | marker :: quote :: last =>
    if (marker == ascii 'E' || marker == ascii 'e') && quote == ascii single_quote &&
        last.getLast? == some (ascii single_quote) then
      some (text.drop 2).dropLast
    else none
  | _ => none

def postgres_escape_string_is_valid (text : List SourceByte) : Bool :=
  match postgres_escape_body text with
  | none => true
  | some body =>
    let special (b : SourceByte) := b.byte == ascii backslash || b.byte == ascii single_quote
    !body.any special ||
      scan_postgres_escape_string body.length body UTF8_TAIL_START == some UTF8_TAIL_START

/-- The bytes of a segment behind its opening quote up to its closing one, and what follows. -/
def split_segment : List SourceByte → Option (List SourceByte × List SourceByte)
  | [] => none
  | b :: rest =>
    if b.byte == ascii backslash && !rest.isEmpty then
      match rest with
      | [] => none
      | b' :: rest => (split_segment rest).map fun (body, rest) => (b :: b' :: body, rest)
    else if b.byte == ascii single_quote then
      match rest with
      | [] => some ([b], [])
      | b' :: rest =>
        if b'.byte == ascii single_quote then
          (split_segment rest).map fun (body, rest) => (b :: b' :: body, rest)
        else some ([b], b' :: rest)
    else (split_segment rest).map fun (body, rest) => (b :: body, rest)

def is_line_break (b : SourceByte) : Bool := b.byte == 0x0a || b.byte == 0x0d

/-- What may stand between the segments of a string. -/
def is_gap (b : SourceByte) : Bool :=
  is_line_break b || b.byte == 0x20 || b.byte == 0x09 || b.byte == 0x0b || b.byte == 0x0c

/-- Whether every segment of a continued escape string is valid on its own. -/
def segments_are_valid (marker : SourceByte) : Nat → List SourceByte → Bool
  | 0, _ => false
  | _ + 1, [] => false
  | n + 1, quote :: rest =>
    if quote.byte == ascii single_quote then
      match split_segment rest with
      | none => false
      | some (body, rest) =>
        if postgres_escape_string_is_valid (marker :: quote :: body) then
          let gap := rest.takeWhile is_gap
          let rest := rest.dropWhile is_gap
          if gap.any is_line_break && rest.head?.any (·.byte == ascii single_quote) then
            segments_are_valid marker n rest
          else rest.isEmpty
        else false
    else false

def escape_string_segments_are_valid (text : List SourceByte) : Bool :=
  match text with
  | marker :: quote :: last :: rest =>
    if (marker.byte == ascii 'E' || marker.byte == ascii 'e') &&
        quote.byte == ascii single_quote then
      segments_are_valid marker text.length (quote :: last :: rest)
    else postgres_escape_string_is_valid text
  | _ => postgres_escape_string_is_valid text

end squonk.tokenizer.escape
