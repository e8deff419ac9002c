import Mathlib.Data.List.Basic
import Mathlib.Tactic.Linarith

/-!
# Byte classes

The classes the scanner sorts the bytes of a source into, and the tables the dialects sort them
by.
-/

namespace squonk.dialect

/-- The byte of an ASCII character. -/
def ascii (c : Char) : UInt8 := c.toNat.toUInt8

namespace lex_class

def CLASS_WHITESPACE : UInt8 := 1

def CLASS_IDENTIFIER_START : UInt8 := 2

def CLASS_IDENTIFIER_CONTINUE : UInt8 := 4

def CLASS_DIGIT : UInt8 := 8

def CLASS_OPERATOR : UInt8 := 16

/-- Bytes that extend a run of blanks and do not start one. -/
def CLASS_WHITESPACE_CONTINUE : UInt8 := 32

def CLASS_PUNCTUATION : UInt8 := 64

/-- Blanks that stand only at the edges of a statement. -/
def CLASS_WHITESPACE_BOUNDARY : UInt8 := 128

def is_ascii_whitespace (byte : UInt8) : Bool :=
  byte == 9 || byte == 10 || byte == 12 || byte == 13 || byte == 32

def is_ascii_digit (byte : UInt8) : Bool := ascii '0' ≤ byte && byte ≤ ascii '9'

def is_ascii_alphabetic (byte : UInt8) : Bool :=
  (ascii 'A' ≤ byte && byte ≤ ascii 'Z') || (ascii 'a' ≤ byte && byte ≤ ascii 'z')

def is_ascii_hexdigit (byte : UInt8) : Bool :=
  is_ascii_digit byte || (ascii 'A' ≤ byte && byte ≤ ascii 'F') ||
    (ascii 'a' ≤ byte && byte ≤ ascii 'f')

def is_identifier_start (byte : UInt8) : Bool := byte == ascii '_' || is_ascii_alphabetic byte

def is_identifier_continue (byte : UInt8) : Bool :=
  is_identifier_start byte || is_ascii_digit byte || 0x80 ≤ byte

def is_operator (byte : UInt8) : Bool :=
  ("+-*/%=<>!|&^~".toList.map ascii).contains byte

def is_punctuation (byte : UInt8) : Bool :=
  ("(),;.[]\x7b\x7d:".toList.map ascii).contains byte

def build_byte_class (byte : UInt8) : UInt8 :=
  (bif is_ascii_whitespace byte then CLASS_WHITESPACE else 0) |||
  (bif is_identifier_start byte then CLASS_IDENTIFIER_START else 0) |||
  (bif is_identifier_continue byte then CLASS_IDENTIFIER_CONTINUE else 0) |||
  (bif is_ascii_digit byte then CLASS_DIGIT else 0) |||
  (bif is_operator byte then CLASS_OPERATOR else 0) |||
  (bif is_punctuation byte then CLASS_PUNCTUATION else 0)

end lex_class

open lex_class

structure ByteClasses where
  table : UInt8 → UInt8
  has_boundary : Bool

namespace ByteClasses

def STANDARD : ByteClasses where
  table := build_byte_class
  has_boundary := false

def byte_class (self : ByteClasses) (byte : UInt8) : UInt8 := self.table byte

def has_class (self : ByteClasses) (byte mask : UInt8) : Bool :=
  self.byte_class byte &&& mask != 0

def has_boundary_whitespace (self : ByteClasses) : Bool := self.has_boundary

def with_class (self : ByteClasses) (byte mask : UInt8) : ByteClasses where
  table other := bif other == byte then self.table other ||| mask else self.table other
  has_boundary := self.has_boundary || mask &&& CLASS_WHITESPACE_BOUNDARY != 0

end ByteClasses

def STANDARD_BYTE_CLASSES : ByteClasses := .STANDARD

def POSTGRES_BYTE_CLASSES : ByteClasses := STANDARD_BYTE_CLASSES.with_class 0x0b CLASS_WHITESPACE

def MYSQL_BYTE_CLASSES : ByteClasses := STANDARD_BYTE_CLASSES.with_class 0x0b CLASS_WHITESPACE

def SQLITE_BYTE_CLASSES : ByteClasses :=
  STANDARD_BYTE_CLASSES.with_class 0x0b CLASS_WHITESPACE_CONTINUE

def DUCKDB_BYTE_CLASSES : ByteClasses :=
  STANDARD_BYTE_CLASSES.with_class 0x0b (CLASS_WHITESPACE ||| CLASS_WHITESPACE_BOUNDARY)

end squonk.dialect
