import Squonk.Tokenizer.Token

/-!
# Expressions

Parentheses are not a node: an operand carries no trace of the ones around it. A literal keeps
the text it was written with, a quoted name keeps its delimiters, and a symbolic operator is
the operator tokens that spell it.
-/

open squonk.tokenizer

namespace squonk.ast

inductive Ident
  | Word (text : List Char)
  /-- A keyword that is not reserved where it stands. -/
  | Keyword (keyword : Keyword)
  | Quoted (text : List Char)
  deriving DecidableEq

inductive Literal
  | Null
  | Boolean (value : Bool)
  | Number (text : List Char)
  | String (text : List Char)
  deriving DecidableEq

inductive NullTestSpelling | Is | Postfix | PostfixNotNull
  deriving DecidableEq

inductive TruthValue | True | False | Unknown
  deriving DecidableEq

inductive LikeSpelling | Like | ILike | SimilarTo
  deriving DecidableEq

inductive NamedOperatorSpelling | Bare | OperatorKeyword
  deriving DecidableEq

inductive LambdaParamSpelling | Bare | Parenthesized
  deriving DecidableEq

inductive Expr
  | Column (name : Ident)
  | Literal (literal : Literal)
  | BinaryOp (left : Expr) (op : BinaryOperator) (right : Expr)
  | UnaryOp (op : UnaryOperator) (expr : Expr)
  | IsNull (expr : Expr) (negated : Bool) (spelling : NullTestSpelling)
  | IsTruth (expr : Expr) (value : TruthValue) (negated : Bool)
  | Between (expr low high : Expr) (negated symmetric : Bool)
  | Like (expr pattern : Expr) (negated : Bool) (spelling : LikeSpelling)
  /-- A `LIKE` with an `ESCAPE` clause. -/
  | LikeEscape (expr pattern escape : Expr) (negated : Bool) (spelling : LikeSpelling)
  | Collate (expr : Expr) (collation : Ident)
  | AtTimeZone (expr zone : Expr)
  | NamedOperator (left : Expr) (schema : List Ident) (op : List Operator) (right : Expr)
      (spelling : NamedOperatorSpelling)
  | PrefixOperator (op : Operator) (operand : Expr)
  | PostfixOperator (operand : Expr) (op : Operator)
  | Lambda (param : Ident) (spelling : LambdaParamSpelling) (body : Expr)
  deriving DecidableEq

end squonk.ast
