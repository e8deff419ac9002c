/-!
# Operators of the expression tree

Each spelling a source can use for one operator is a tag on that operator.
-/

namespace squonk.ast

inductive ModuloSpelling | Percent | Mod
  deriving DecidableEq

inductive IntegerDivideSpelling | Div | SlashSlash
  deriving DecidableEq

inductive BitwiseXorSpelling | Hash | Caret
  deriving DecidableEq

inductive EqualsSpelling | Single | Double
  deriving DecidableEq

inductive NotEqSpelling | AngleBracket | Bang
  deriving DecidableEq

inductive IsDistinctFromSpelling | Keyword | Is
  deriving DecidableEq

inductive IsNotDistinctFromSpelling | Keyword | NullSafeEq | Is
  deriving DecidableEq

inductive RegexpSpelling | Rlike | Regexp
  deriving DecidableEq

inductive BinaryOperator
  | Plus
  | Minus
  | Multiply
  | Divide
  | Modulo (spelling : ModuloSpelling)
  | IntegerDivide (spelling : IntegerDivideSpelling)
  | Exponent
  | StringConcat
  | Contains
  | ContainedBy
  | StartsWith
  | Overlap
  | JsonGet
  | JsonGetText
  | JsonExists
  | JsonExistsAny
  | JsonExistsAll
  | JsonPathExists
  | JsonPathMatch
  | JsonExtractPath
  | JsonExtractPathText
  | JsonDeletePath
  | BitwiseOr
  | BitwiseAnd
  | BitwiseShiftLeft
  | BitwiseShiftRight
  | BitwiseXor (spelling : BitwiseXorSpelling)
  | Eq (spelling : EqualsSpelling)
  | NotEq (spelling : NotEqSpelling)
  | Lt
  | LtEq
  | Gt
  | GtEq
  | IsDistinctFrom (spelling : IsDistinctFromSpelling)
  | IsNotDistinctFrom (spelling : IsNotDistinctFromSpelling)
  | Regexp (spelling : RegexpSpelling)
  | Glob
  | Match
  | Overlaps
  | And
  | Xor
  | Or
  deriving DecidableEq

inductive SetOperator | Union | Intersect | Except
  deriving DecidableEq

inductive UnaryOperator | Not | Minus | Plus | BitwiseNot | Prior
  deriving DecidableEq

end squonk.ast
