import Squonk.Ast.Operator

/-!
# Binding powers

The table a dialect ranks its operators with, and the rule that decides from two ranks
whether a child is parenthesized.
-/

open squonk.ast

namespace squonk.precedence

inductive Assoc | Left | Right | NonAssoc
  deriving DecidableEq

structure BindingPower where
  left : Nat
  right : Nat
  assoc : Assoc
  deriving DecidableEq

inductive Side | Left | Right
  deriving DecidableEq

/-- Whether a child of rank `child` on `side` of a parent of rank `parent` needs parentheses. -/
def needs_parens_between (parent child : BindingPower) (side : Side) : Bool :=
  let same_precedence := parent.left == child.left && parent.right == child.right
  match side with
  | .Left =>
    decide (child.right < parent.left) ||
      (same_precedence && match parent.assoc with
        | .Left => false
        | .Right | .NonAssoc => true)
  | .Right =>
    decide (child.left < parent.right) ||
      (same_precedence && match parent.assoc with
        | .Right => false
        | .Left | .NonAssoc => true)

/-- The ranks of the query-body operators. -/
structure SetOperationBindingPowerTable where
  union_except : BindingPower
  intersect : BindingPower
  deriving DecidableEq

namespace SetOperationBindingPowerTable

def STANDARD : SetOperationBindingPowerTable where
  union_except := ⟨10, 11, .Left⟩
  intersect := ⟨20, 21, .Left⟩

def set_operation (self : SetOperationBindingPowerTable) : SetOperator → BindingPower
  | .Union | .Except => self.union_except
  | .Intersect => self.intersect

def needs_parens (self : SetOperationBindingPowerTable) (parent child : SetOperator)
    (side : Side) : Bool :=
  needs_parens_between (self.set_operation parent) (self.set_operation child) side

end SetOperationBindingPowerTable

def OVERLAPS_PREDICATE : BindingPower := ⟨42, 43, .NonAssoc⟩

def UNPARENTHESIZED_IN_LIST : BindingPower := ⟨42, 43, .Left⟩

def RANGE_PREDICATE_ABOVE_COMPARISON : BindingPower := ⟨42, 43, .NonAssoc⟩

def IS_PREDICATE_BELOW_COMPARISON : BindingPower := ⟨35, 36, .NonAssoc⟩

structure BindingPowerTable where
  or : BindingPower
  xor : BindingPower
  and : BindingPower
  comparison : BindingPower
  range_predicate_override : Option BindingPower
  is_predicate_override : Option BindingPower
  double_equals : BindingPower
  additive : BindingPower
  multiplicative : BindingPower
  exponent : BindingPower
  string_concat : BindingPower
  any_operator : BindingPower
  json_get : BindingPower
  bitwise_or : BindingPower
  bitwise_and : BindingPower
  bitwise_shift : BindingPower
  bitwise_xor : BindingPower
  prefix_not : Nat
  prefix_sign : Nat
  prefix_bitwise_not : Nat
  at_time_zone : BindingPower
  collate : BindingPower
  subscript : BindingPower
  typecast : BindingPower
  field_selection : BindingPower
  deriving DecidableEq

namespace BindingPowerTable

/-- The rank of the `IS` family of predicates. -/
def predicate (self : BindingPowerTable) : BindingPower :=
  self.is_predicate_override.getD self.comparison

/-- The rank of the range, pattern and membership predicates. -/
def range_predicate (self : BindingPowerTable) : BindingPower :=
  self.range_predicate_override.getD self.comparison

def binary (self : BindingPowerTable) : BinaryOperator → BindingPower
  | .Or => self.or
  | .Xor => self.xor
  | .And => self.and
  | .IsDistinctFrom .Keyword | .IsNotDistinctFrom .Keyword => self.predicate
  | .IsDistinctFrom .Is | .IsNotDistinctFrom .Is | .IsNotDistinctFrom .NullSafeEq =>
    self.comparison
  | .Eq .Double => self.double_equals
  | .Eq .Single | .NotEq _ | .Lt | .LtEq | .Gt | .GtEq | .Regexp _ | .Glob | .Match =>
    self.comparison
  | .Plus | .Minus => self.additive
  | .Multiply | .Divide | .Modulo _ | .IntegerDivide _ => self.multiplicative
  | .Exponent => self.exponent
  | .StringConcat => self.string_concat
  | .Contains | .ContainedBy | .StartsWith | .JsonGetText | .JsonExists | .JsonExistsAny
  | .JsonExistsAll | .JsonPathExists | .JsonPathMatch | .JsonExtractPath | .JsonExtractPathText
  | .JsonDeletePath | .Overlap => self.any_operator
  | .JsonGet => self.json_get
  | .BitwiseOr => self.bitwise_or
  | .BitwiseAnd => self.bitwise_and
  | .BitwiseShiftLeft | .BitwiseShiftRight => self.bitwise_shift
  | .BitwiseXor _ => self.bitwise_xor
  | .Overlaps => OVERLAPS_PREDICATE

def prefix_power (self : BindingPowerTable) : UnaryOperator → Nat
  | .Not => self.prefix_not
  | .Minus | .Plus | .Prior => self.prefix_sign
  | .BitwiseNot => self.prefix_bitwise_not

def needs_parens (self : BindingPowerTable) (parent child : BinaryOperator) (side : Side) : Bool :=
  needs_parens_between (self.binary parent) (self.binary child) side

/-- The table shared by the dialects that rank no operator of their own. -/
def STANDARD : BindingPowerTable where
  or := ⟨10, 11, .Left⟩
  xor := ⟨15, 16, .Left⟩
  and := ⟨20, 21, .Left⟩
  comparison := ⟨40, 41, .NonAssoc⟩
  range_predicate_override := none
  is_predicate_override := none
  double_equals := ⟨40, 41, .NonAssoc⟩
  additive := ⟨50, 51, .Left⟩
  multiplicative := ⟨60, 61, .Left⟩
  exponent := ⟨65, 66, .Left⟩
  string_concat := ⟨45, 46, .Left⟩
  any_operator := ⟨45, 46, .Left⟩
  json_get := ⟨45, 46, .Left⟩
  bitwise_or := ⟨45, 46, .Left⟩
  bitwise_and := ⟨45, 46, .Left⟩
  bitwise_shift := ⟨45, 46, .Left⟩
  bitwise_xor := ⟨45, 46, .Left⟩
  prefix_not := 30
  prefix_sign := 80
  prefix_bitwise_not := 46
  at_time_zone := ⟨70, 71, .Left⟩
  collate := ⟨74, 75, .Left⟩
  subscript := ⟨84, 85, .Left⟩
  typecast := ⟨88, 89, .Left⟩
  field_selection := ⟨92, 93, .Left⟩

/-- PostgreSQL's table, which the permissive dialect repeats. -/
def POSTGRES : BindingPowerTable :=
  { STANDARD with
    range_predicate_override := some RANGE_PREDICATE_ABOVE_COMPARISON
    is_predicate_override := some IS_PREDICATE_BELOW_COMPARISON }

def DUCKDB : BindingPowerTable :=
  { STANDARD with
    is_predicate_override := some IS_PREDICATE_BELOW_COMPARISON
    double_equals := ⟨45, 46, .Left⟩
    json_get := ⟨4, 5, .Left⟩ }

def MYSQL : BindingPowerTable :=
  { STANDARD with
    comparison := ⟨40, 41, .Left⟩
    double_equals := ⟨40, 41, .Left⟩
    bitwise_or := ⟨42, 43, .Left⟩
    bitwise_and := ⟨44, 45, .Left⟩
    bitwise_shift := ⟨47, 48, .Left⟩
    bitwise_xor := ⟨65, 66, .Left⟩
    prefix_bitwise_not := 80 }

def SQLITE : BindingPowerTable :=
  { STANDARD with
    comparison := ⟨40, 41, .Left⟩
    double_equals := ⟨40, 41, .Left⟩
    prefix_bitwise_not := 80 }

end BindingPowerTable

end squonk.precedence
