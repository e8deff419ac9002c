import Mathlib
import Squonk.Ast.Literal.Number
import Squonk.Parser.Engine
import Squonk.Parser.Expr.Lookahead

/-!
# Row patterns

The body of `PATTERN (...)`: alternatives of sequences of factors, each a primary with an optional
quantifier. The start anchor, the bars and the quantifiers are the operators of the expressions.
-/

open squonk.ast squonk.ast.literal squonk.dialect squonk.tokenizer

namespace squonk.parser.row_pattern

/-! ## The tree -/

inductive RepetitionQuantifier
  | ZeroOrMore | OneOrMore | AtMostOne
  | Exactly (n : Nat)
  | AtLeast (n : Nat)
  | AtMost (m : Nat)
  | Range (n m : Nat)
  deriving DecidableEq

inductive MatchRecognizePattern
  | Symbol (symbol : Ident)
  | Start | End
  | Concat (patterns : List MatchRecognizePattern)
  | Alternation (patterns : List MatchRecognizePattern)
  | Group (pattern : MatchRecognizePattern)
  | Exclude (pattern : MatchRecognizePattern)
  | Permute (patterns : List MatchRecognizePattern)
  | Repetition (pattern : MatchRecognizePattern) (quantifier : RepetitionQuantifier)

/-! ## Quantifiers -/

/-- The number of a count that fits 32 bits. -/
def pattern_count (text : List Char) : Option Nat :=
  if text.all Char.isDigit && !text.isEmpty && digits_value 10 text < 2 ^ 32 then
    some (digits_value 10 text)
  else
    none

/-- A count, or nothing where no number is ahead. -/
def try_parse_pattern_count : ParseResult (Option Nat) := do
  match ← peek with
  | some (.number text) =>
    advance
    match pattern_count text with
    | some value => return some value
    | none => unexpected "an integer repetition bound"
  | _ => return none

def parse_row_pattern_counts : ParseResult RepetitionQuantifier := do
  let low ← try_parse_pattern_count
  if ← eat_punct .Comma then
    let high ← try_parse_pattern_count
    match low, high with
    | some n, some m => return .Range n m
    | some n, none => return .AtLeast n
    | none, some m => return .AtMost m
    | none, none => unexpected "a repetition bound"
  else
    match low with
    | some n => return .Exactly n
    | none => unexpected "a repetition count"

def parse_row_pattern_bound : ParseResult RepetitionQuantifier := do
  expect_punct .LBrace "`\x7b` to open a pattern quantifier"
  let quantifier ← parse_row_pattern_counts
  expect_punct .RBrace "`\x7d` to close a pattern quantifier"
  return quantifier

/-- A `{-` is the exclusion that follows and no bound. -/
def parse_row_pattern_quantifier : ParseResult (Option RepetitionQuantifier) := do
  if ← eat_op .Star then
    return some .ZeroOrMore
  else if ← eat_op .Plus then
    return some .OneOrMore
  else if (← peek_is_punct .LBrace) && !(← peek_nth_is_op 1 .Minus) then
    let bound ← parse_row_pattern_bound
    return some bound
  else
    return none

/-! ## Patterns -/

/-- The keyword `PERMUTE`, in any case. -/
def is_permute : Token → Bool
  | .word text => text.map Char.toLower == "permute".toList
  | _ => false

def eat_permute : ParseResult Bool := do
  if (← peek).any is_permute then
    advance
    return true
  else
    return false

section
variable (features : FeatureSet)

def parse_ident : ParseResult Ident := do
  match (← peek).bind (expr.column_name features) with
  | some symbol =>
    advance
    return symbol
  | none => unexpected "an identifier"

/-- The closers of a sequence: `|`, `)`, `,`, `-}` and the end of the input. -/
def ends_sequence (tokens : List Token) : Bool :=
  match tokens with
  | [] => true
  | .operator .Pipe :: _ | .rparen :: _ | .comma :: _ => true
  | .operator .Minus :: .punctuation .RBrace :: _ => true
  | _ => false

def peek_ends_row_pattern_sequence : ParseResult Bool := do
  return ends_sequence (← get).tokens

section
variable (pattern : ParseResult MatchRecognizePattern)

def parse_row_pattern_primary : ParseResult MatchRecognizePattern := do
  if ← eat_op .Caret then
    return .Start
  else if ← eat_punct .LParen then
    let inner ← pattern
    expect_punct .RParen "`)` to close a pattern group"
    return .Group inner
  else if (← peek_is_punct .LBrace) && (← peek_nth_is_op 1 .Minus) then
    advance
    advance
    let inner ← pattern
    expect_op .Minus "`-\x7d` to close a pattern exclusion"
    expect_punct .RBrace "`-\x7d` to close a pattern exclusion"
    return .Exclude inner
  else if ← eat_permute then
    expect_punct .LParen "`(` after PERMUTE"
    let patterns ← parse_comma_separated pattern
    expect_punct .RParen "`)` to close PERMUTE"
    return .Permute patterns
  else
    let symbol ← parse_ident features
    return .Symbol symbol

def parse_row_pattern_factor : ParseResult MatchRecognizePattern := do
  let primary ← parse_row_pattern_primary features pattern
  match ← parse_row_pattern_quantifier with
  | some quantifier => return .Repetition primary quantifier
  | none => return primary

/-- The factors behind the first. Each takes a token, so the tokens left bound them. -/
def concat_tail : Nat → ParseResult (List MatchRecognizePattern)
  | 0 => return []
  | n + 1 => do
    if ← peek_ends_row_pattern_sequence then
      return []
    else
      let head ← parse_row_pattern_factor features pattern
      let tail ← concat_tail n
      return head :: tail

def parse_row_pattern_concat : ParseResult MatchRecognizePattern := do
  let first ← parse_row_pattern_factor features pattern
  if ← peek_ends_row_pattern_sequence then
    return first
  else
    let rest ← concat_tail features pattern (← get).tokens.length
    return .Concat (first :: rest)

/-- The branches behind the first. Each round takes a bar. -/
def alternation_tail : Nat → ParseResult (List MatchRecognizePattern)
  | 0 => return []
  | n + 1 => do
    if ← eat_op .Pipe then
      let head ← parse_row_pattern_concat features pattern
      let tail ← alternation_tail n
      return head :: tail
    else
      return []

def parse_row_pattern_alternation : ParseResult MatchRecognizePattern := do
  let first ← parse_row_pattern_concat features pattern
  if ← peek_nth_is_op 0 .Pipe then
    let rest ← alternation_tail features pattern (← get).tokens.length
    return .Alternation (first :: rest)
  else
    return first

end

/-- A pattern with so many levels of recursion left. -/
def parse_row_pattern : Nat → ParseResult MatchRecognizePattern
  | 0 => throw .recursion_limit_exceeded
  | level + 1 => parse_row_pattern_alternation features (parse_row_pattern level)

end

end squonk.parser.row_pattern
