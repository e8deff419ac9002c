import Mathlib.Data.Rat.Defs
import Mathlib.Algebra.Order.Field.Rat
import Mathlib.Algebra.Ring.Int.Parity
import Squonk.Ast.Literal.Number

/-!
# The texts of numbers

What a number is written like and the number it denotes: a sign, which may stand apart from the
number, and a decimal number, an integer behind the marker of a radix or an amount of money.
-/

open squonk.tokenizer

namespace squonk.ast.literal

/-! ## Digits -/

/-- Digits of the base, and separators. -/
def IsRun (base : Nat) (run : List Char) : Prop :=
  ∀ c ∈ run, is_radix_digit c base = true ∨ c = '_'

def HasDigit (base : Nat) (run : List Char) : Prop := ∃ c ∈ run, is_radix_digit c base = true

def without_separators (run : List Char) : List Char := run.filter (· != '_')

def radix_base : scan.Radix → Nat
  | .Hex => 16
  | .Octal => 8
  | .Binary => 2

/-- The number that the digits of a run are. -/
def run_value (base : Nat) (run : List Char) : Nat := digits_value base (without_separators run)

/-- Every separator of the text stands between two digits. -/
def SeparatorsPlaced (base : Nat) (text : List Char) : Prop :=
  ∀ front back, text = front ++ '_' :: back →
    (∃ c ∈ front.getLast?, is_radix_digit c base = true) ∧
      ∃ c ∈ back.head?, is_radix_digit c base = true

/-! ## Numbers -/

inductive Sign | Plus | Minus
  deriving DecidableEq

def Sign.char : Sign → Char
  | .Plus => '+'
  | .Minus => '-'

def Sign.factor : Sign → Int
  | .Plus => 1
  | .Minus => -1

structure Exponent where
  upper : Bool
  sign : Option Sign
  digits : List Char
  run : IsRun 10 digits
  digit : HasDigit 10 digits

namespace Exponent

def marker (self : Exponent) : Char := bif self.upper then 'E' else 'e'

def text (self : Exponent) : List Char :=
  self.marker :: (self.sign.toList.map Sign.char ++ self.digits)

def value (self : Exponent) : Int := self.sign.elim 1 Sign.factor * run_value 10 self.digits

end Exponent

/-- Digits in front of a point and behind it, where there is one. -/
structure FixedPoint where
  whole : List Char
  fraction : Option (List Char)
  whole_run : IsRun 10 whole
  fraction_run : ∀ run ∈ fraction, IsRun 10 run
  digit : HasDigit 10 (whole ++ fraction.getD [])
  leads : whole.head? ≠ some '_'

namespace FixedPoint

def text (self : FixedPoint) : List Char := self.whole ++ self.fraction.elim [] ('.' :: ·)

/-- All its digits. -/
def digits (self : FixedPoint) : List Char := self.whole ++ self.fraction.getD []

/-- How many of them are behind the point. -/
def places (self : FixedPoint) : Nat := (without_separators (self.fraction.getD [])).length

def value (self : FixedPoint) : ℚ := run_value 10 self.digits * (10 : ℚ) ^ (-(self.places : Int))

end FixedPoint

/-- Digits behind the marker of their radix. -/
structure RadixInteger where
  radix : scan.Radix
  upper : Bool
  digits : List Char
  run : IsRun (radix_base radix) digits
  digit : HasDigit (radix_base radix) digits

namespace RadixInteger

def base (self : RadixInteger) : Nat := radix_base self.radix

def marker (self : RadixInteger) : Char :=
  match self.radix with
  | .Hex => bif self.upper then 'X' else 'x'
  | .Octal => bif self.upper then 'O' else 'o'
  | .Binary => bif self.upper then 'B' else 'b'

def text (self : RadixInteger) : List Char := '0' :: self.marker :: self.digits

def value (self : RadixInteger) : Nat := run_value self.base self.digits

end RadixInteger

inductive NumberBody
  | Decimal (mantissa : FixedPoint) (exponent : Option Exponent)
  | Radix (integer : RadixInteger)
  | Money (amount : FixedPoint) (plain : '_' ∉ amount.text)

namespace NumberBody

def text : NumberBody → List Char
  | Decimal mantissa exponent => mantissa.text ++ exponent.elim [] Exponent.text
  | Radix integer => integer.text
  | Money amount _ => '$' :: amount.text

def value : NumberBody → ℚ
  | Decimal mantissa exponent => mantissa.value * (10 : ℚ) ^ exponent.elim 0 Exponent.value
  | Radix integer => integer.value
  | Money amount _ => amount.value

/-- Its separators stand between digits of its radix, of which the marker is none. -/
def WellPlaced : NumberBody → Prop
  | Radix integer => SeparatorsPlaced integer.base integer.digits
  | body => SeparatorsPlaced 10 body.text

end NumberBody

/-- A sign in front of a number, and what stands between them. -/
structure FoldedSign where
  sign : Sign
  gap : List Char
  apart : ∀ c ∈ gap.head?, c.isDigit = false ∧ c ≠ '.' ∧ c ≠ '_' ∧ c ≠ '$'

structure NumberText where
  folded : Option FoldedSign
  body : NumberBody

namespace NumberText

def gap (self : NumberText) : List Char := self.folded.elim [] FoldedSign.gap

def sign (self : NumberText) : List Char := self.folded.elim [] fun folded => [folded.sign.char]

def factor (self : NumberText) : Int := self.folded.elim 1 fun folded => folded.sign.factor

def text (self : NumberText) : List Char := self.sign ++ (self.gap ++ self.body.text)

/-- The number that the text denotes, sign included. -/
def value (self : NumberText) : ℚ := self.factor * self.body.value

end NumberText

/-- The text is a decimal number without separators, and the number is what it denotes. -/
def Denotes (text : List Char) (value : ℚ) : Prop :=
  ∃ n : NumberText, n.gap = [] ∧ (∃ mantissa exponent, n.body = .Decimal mantissa exponent) ∧
    '_' ∉ n.text ∧ n.text = text ∧ n.value = value

end squonk.ast.literal
