import Mathlib.Order.Bounds.Basic
import Squonk.Ast.Literal.Number
import Squonk.Tokenizer.OperatorRule

/-!
# The grammar of numbers

What a number is in a dialect: digits with separators between them, a fraction, an exponent with a
digit in it, or the digits of a radix behind its marker.
-/

open squonk.dialect squonk.dialect.lex_class squonk.ast.literal

namespace squonk.tokenizer.scan

/-! ## Runs of digits -/

section
variable (digit : Char → Bool) (separators : Bool)

/-- Digits, each of them behind a separator or not. -/
inductive DigitTail : List Char → Prop
  | nil : DigitTail []
  | digit {c : Char} {tail : List Char} (hc : digit c = true) (h : DigitTail tail) :
    DigitTail (c :: tail)
  | separator {c : Char} {tail : List Char} (hseparators : separators = true)
      (hc : digit c = true) (h : DigitTail tail) : DigitTail ('_' :: c :: tail)

/-- Digits with separators between them. -/
def DigitRun (run : List Char) : Prop :=
  ∃ c tail, run = c :: tail ∧ digit c = true ∧ DigitTail digit separators tail

/-- No digit follows, behind a separator or not. -/
def TailStops (rest : List Char) : Prop :=
  (∀ c tail, rest = c :: tail → digit c = false) ∧
    ∀ c tail, separators = true → rest = '_' :: c :: tail → digit c = false

end

section
variable {digit : Char → Bool} {separators : Bool}

theorem DigitRun.ne_nil {run : List Char} (h : DigitRun digit separators run) : run ≠ [] := by
  obtain ⟨c, tail, rfl, -⟩ := h
  exact List.cons_ne_nil c tail

theorem DigitRun.tail {run : List Char} (h : DigitRun digit separators run) :
    DigitTail digit separators run := by
  obtain ⟨c, tail, rfl, hc, htail⟩ := h
  exact .digit hc htail

/-- Digits that are followed by none are the longest ones. -/
theorem DigitTail.length_le {front front' back back' : List Char}
    (hsep : digit '_' = false) (h : DigitTail digit separators front)
    (h' : DigitTail digit separators front')
    (hstops : TailStops digit separators back') (heq : front ++ back = front' ++ back') :
    front.length ≤ front'.length := by
  induction h generalizing front' with
  | nil => exact Nat.zero_le _
  | @digit c tail hc htail ih =>
    cases h' with
    | nil =>
      have hstop := hstops.1 c (tail ++ back) (by simpa using heq.symm)
      rw [hstop] at hc
      cases hc
    | digit hc' htail' => exact Nat.succ_le_succ (ih htail' (List.cons.inj heq).2)
    | separator hseparators hc' htail' =>
      rw [(List.cons.inj heq).1, hsep] at hc
      cases hc
  | @separator c tail hseparators hc htail ih =>
    cases h' with
    | nil =>
      have hstop := hstops.2 c (tail ++ back) hseparators (by simpa using heq.symm)
      rw [hstop] at hc
      cases hc
    | digit hc' htail' =>
      rw [← (List.cons.inj heq).1, hsep] at hc'
      cases hc'
    | separator _ hc' htail' =>
      exact Nat.succ_le_succ (Nat.succ_le_succ (ih htail' (List.cons.inj (List.cons.inj heq).2).2))

theorem DigitTail.unique {front front' back back' : List Char}
    (hsep : digit '_' = false) (h : DigitTail digit separators front)
    (h' : DigitTail digit separators front') (hstops : TailStops digit separators back)
    (hstops' : TailStops digit separators back') (heq : front ++ back = front' ++ back') :
    front = front' ∧ back = back' :=
  List.append_inj heq ((h.length_le hsep h' hstops' heq).antisymm
    (h'.length_le hsep h hstops heq.symm))

theorem tailStops_cons {c : Char} {rest : List Char} (hc : digit c = false) (hne : c ≠ '_') :
    TailStops digit separators (c :: rest) := by
  refine ⟨fun d tail heq => ?_, fun d tail _ heq => absurd (List.cons.inj heq).1 hne⟩
  rw [← (List.cons.inj heq).1]
  exact hc

end

/-! ## Numbers -/

/-- How a number is read: behind the marker of a radix, as an integer, or with a fraction or an
    exponent. -/
inductive NumberShape | Radix (radix : Radix) | Integer | Fractional
  deriving DecidableEq

section
variable (features : FeatureSet)

def radix_enabled : Radix → Bool
  | .Hex => features.numeric_literals.hex_integers
  | .Octal => features.numeric_literals.octal_integers
  | .Binary => features.numeric_literals.binary_integers

def radix_markers : Radix → List Char
  | .Hex => ['x', 'X']
  | .Octal => ['o', 'O']
  | .Binary => ['b', 'B']

def radix_digit (radix : Radix) (c : Char) : Bool :=
  match radix with
  | .Hex => is_radix_digit c 16
  | .Octal => is_radix_digit c 8
  | .Binary => is_radix_digit c 2

/-- Digits with the separators of the dialect. -/
def IsRun (digit : Char → Bool) (run : List Char) : Prop :=
  DigitRun digit features.numeric_literals.underscore_separators run

/-- A separator leads the digits. -/
def Led (digit : Char → Bool) (run : List Char) : Prop :=
  features.numeric_literals.underscore_separators = true ∧
    ∃ tail, run = '_' :: tail ∧ IsRun features digit tail

/-- The digits behind a marker; a separator leads them in some dialects. -/
def RadixBody (radix : Radix) (body : List Char) : Prop :=
  IsRun features (radix_digit radix) body ∨
    features.numeric_literals.radix_leading_underscore = true ∧ Led features (radix_digit radix) body

/-- The digits behind a point, where there are any; a separator leads them where a dialect does not
    reject junk behind numbers. -/
def Fraction (run : List Char) : Prop :=
  run = [] ∨ IsRun features Char.isDigit run ∨
    features.numeric_literals.reject_trailing_junk = false ∧ Led features Char.isDigit run

def Exponent (exponent : List Char) : Prop :=
  ∃ marker sign run, exponent = marker :: (sign ++ run) ∧ marker ∈ ['e', 'E'] ∧
    sign ∈ [[], ['+'], ['-']] ∧ IsRun features Char.isDigit run

inductive Mantissa : NumberShape → List Char → Prop
  | whole {run : List Char} (h : IsRun features Char.isDigit run) : Mantissa .Integer run
  | point {whole fraction : List Char} (hwhole : IsRun features Char.isDigit whole)
      (hfraction : Fraction features fraction) : Mantissa .Fractional (whole ++ '.' :: fraction)
  | leading_point {run : List Char} (h : IsRun features Char.isDigit run) :
    Mantissa .Fractional ('.' :: run)

inductive IsNumber : NumberShape → List Char → Prop
  | radix {radix : Radix} {marker : Char} {body : List Char}
      (henabled : radix_enabled features radix = true) (hmarker : marker ∈ radix_markers radix)
      (hbody : RadixBody features radix body) : IsNumber (.Radix radix) ('0' :: marker :: body)
  | decimal {shape : NumberShape} {mantissa : List Char} (h : Mantissa features shape mantissa) :
    IsNumber shape mantissa
  | scientific {shape : NumberShape} {mantissa exponent : List Char}
      (h : Mantissa features shape mantissa) (hexponent : Exponent features exponent) :
    IsNumber .Fractional (mantissa ++ exponent)

/-- The digits of the table are the ASCII ones. -/
def PlainDigits : Prop := ∀ byte, is_digit features byte = is_ascii_digit byte

/-- A number starts at the cursor. -/
def NumberStarts (cursor : Cursor) : Prop :=
  cursor.peek.any (is_digit features) = true ∨
    cursor.peek = some (ascii '.') ∧ (cursor.peek_nth 1).any (is_digit features) = true

end

/-- The kind of the literal that a number of the shape is. -/
def NumberShape.kind (parse_float_as_decimal : Bool) : NumberShape → LiteralKind
  | .Fractional => bif parse_float_as_decimal then .Decimal else .Float
  | _ => .Integer

end squonk.tokenizer.scan
