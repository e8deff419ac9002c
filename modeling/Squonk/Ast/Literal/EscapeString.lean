import Squonk.Ast.Literal.Utf8Tail

/-!
# The walk over an escape string

One walk over the body of an escape string for any sink of the bytes it decodes to. The accessor
collects them and decodes them at the end, the check at parse time keeps where in a character it
is.
-/

open squonk.dialect squonk.tokenizer

namespace squonk.ast.literal

/-- How a literal fails to have a value; to slice a text inside of a character is a panic. -/
inductive Fault
  | invalid
  | panic
  deriving DecidableEq

abbrev Value := Except Fault

def invalid {α : Type} : Value α := .error .invalid

/-- The text from a place on. -/
def slice_from (body : List SourceByte) : Value (List SourceByte) :=
  if whole body then .ok body else .error .panic

/-- Where the decoded bytes of an escape string go. -/
structure EscapeSink (S : Type) where
  utf8_run : S → List UInt8 → Value S
  raw_byte : S → UInt8 → Value S

/-- The sink of the accessor, which collects the bytes. -/
def collected : EscapeSink (List UInt8) where
  utf8_run out bytes := .ok (out ++ bytes)
  raw_byte out byte := .ok (out ++ [byte])

/-- The sink of the check, which stores nothing but where in a character it is. -/
def incremental : EscapeSink escape.Utf8Tail where
  utf8_run tail bytes := (escape.utf8_run tail bytes).elim invalid .ok
  raw_byte tail byte := (escape.utf8_tail_push tail byte).elim invalid .ok

section
variable {S : Type} (sink : EscapeSink S)

def push_escape_byte (out : S) (byte : UInt8) : Value S :=
  if byte == 0 then invalid else sink.raw_byte out byte

def consume_escaped_char (body : List SourceByte) (out : S) : Value (List SourceByte × S) := do
  match (← slice_from body).head?.bind (·.char) with
  | none => invalid
  | some c =>
    if c.toNat == 0 then invalid
    else return (body.drop c.utf8Size, ← sink.utf8_run out (String.utf8EncodeChar c))

def consume_octal_escape (body : List SourceByte) (out : S) : Value (List SourceByte × S) := do
  let digits := (body.take 3).takeWhile escape.is_octal_digit
  let value := digits.foldl (fun value b => value * 8 + (b.byte - ascii '0').toNat) 0
  return (body.drop digits.length, ← push_escape_byte sink out value.toUInt8)

def consume_hex_escape (body : List SourceByte) (out : S) : Value (List SourceByte × S) :=
  match body[1]?.bind fun b => escape.hex_value b.byte with
  | none => consume_escaped_char sink body out
  | some first =>
    match body[2]?.bind fun b => escape.hex_value b.byte with
    | some second => do
      return (body.drop 3, ← push_escape_byte sink out (first * 16 + second).toUInt8)
    | none => do return (body.drop 2, ← push_escape_byte sink out first.toUInt8)

/-- The digits of a Unicode escape and the character they are the number of. -/
def unicode_escape_char (body : List SourceByte) (width : Nat) : Option Char := do
  let digits := (body.drop 1).take width
  if digits.length < width then none
  let value ← digits.foldlM (fun value b => (escape.hex_value b.byte).map (value * 16 + ·)) 0
  escape.char_from_u32 value

def consume_unicode_escape (body : List SourceByte) (out : S) (width : Nat) :
    Value (List SourceByte × S) := do
  match unicode_escape_char body width with
  | none => invalid
  | some c =>
    if c.toNat == 0 then invalid
    else return (body.drop (width + 1), ← sink.utf8_run out (String.utf8EncodeChar c))

/-- The escape whose backslash has been read. -/
def consume_postgres_escape (body : List SourceByte) (out : S) : Value (List SourceByte × S) :=
  match body with
  | [] => invalid
  | b :: rest =>
    if b.byte == ascii 'b' then return (rest, ← push_escape_byte sink out 0x08)
    else if b.byte == ascii 'f' then return (rest, ← push_escape_byte sink out 0x0c)
    else if b.byte == ascii 'n' then return (rest, ← push_escape_byte sink out 0x0a)
    else if b.byte == ascii 'r' then return (rest, ← push_escape_byte sink out 0x0d)
    else if b.byte == ascii 't' then return (rest, ← push_escape_byte sink out 0x09)
    else if escape.is_octal_digit b then consume_octal_escape sink body out
    else if b.byte == ascii 'x' then consume_hex_escape sink body out
    else if b.byte == ascii 'u' then consume_unicode_escape sink body out 4
    else if b.byte == ascii 'U' then consume_unicode_escape sink body out 8
    else consume_escaped_char sink body out

/-- The walk over the body of an escape string, from behind the bytes of the segment it is in. A
    turn passes a byte or more, so that a walk with as many turns as bytes comes to the end. -/
def scan_postgres_escape_string :
    Nat → List UInt8 → List SourceByte → S → Value S
  | _, segment, [], out => sink.utf8_run out segment
  | 0, _, _ :: _, _ => .error .panic
  | n + 1, segment, b :: rest, out =>
    if b.byte == ascii single_quote then
      if rest.head?.map (·.byte) == some (ascii single_quote) then do
        let out ← sink.utf8_run out segment
        let out ← push_escape_byte sink out (ascii single_quote)
        scan_postgres_escape_string n [] (rest.drop 1) out
      else invalid
    else if b.byte == ascii backslash then do
      let out ← sink.utf8_run out segment
      let (rest, out) ← consume_postgres_escape sink rest out
      scan_postgres_escape_string n [] rest out
    else scan_postgres_escape_string n (segment ++ [b.byte]) rest out

end

/-- The text that bytes are. -/
def from_utf8 (bytes : List UInt8) : Value (List Char) :=
  match bytes.toByteArray.utf8Decode? with
  | some text => .ok text.toList
  | none => invalid

/-- Whether the body decodes to itself. -/
def is_verbatim (body : List SourceByte) : Bool :=
  !body.any fun b => b.byte == ascii backslash || b.byte == ascii single_quote

def materialize_postgres_escape_string (body : List SourceByte) : Value (List Char) :=
  if is_verbatim body then .ok (body.filterMap (·.char))
  else do from_utf8 (← scan_postgres_escape_string collected body.length [] body [])

def postgres_escape_string_is_valid (text : List SourceByte) : Value Bool :=
  match escape.postgres_escape_body text with
  | none => .ok true
  | some body =>
    if is_verbatim body then .ok true
    else
      match scan_postgres_escape_string incremental body.length [] body escape.UTF8_TAIL_START with
      | .ok tail => .ok (tail == escape.UTF8_TAIL_START)
      | .error .invalid => .ok false
      | .error .panic => .error .panic

end squonk.ast.literal
