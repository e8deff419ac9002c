import Squonk.Ast.Expr
import Squonk.Ast.Precedence
import Squonk.Tokenizer.Scan

/-!
# Rendering expressions

The canonical text of an expression against a table of binding powers, and the rules that
decide which operands it puts in parentheses.
-/

open squonk.ast squonk.precedence squonk.tokenizer

namespace squonk.render

/-! ## Parentheses -/

def binary_child_needs_parens (bp : BindingPowerTable) (parent : BinaryOperator) (child : Expr)
    (side : Side) : Bool :=
  match child with
  | .BinaryOp _ op _ => bp.needs_parens parent op side
  | .UnaryOp op _ =>
    match side with
    | .Right => false
    | .Left => decide (bp.prefix_power op < (bp.binary parent).left)
  | .Between .. | .Like .. | .LikeEscape .. =>
    needs_parens_between (bp.binary parent) bp.range_predicate side
  | .IsNull .. | .IsTruth .. => needs_parens_between (bp.binary parent) bp.predicate side
  | .NamedOperator .. => needs_parens_between (bp.binary parent) bp.any_operator side
  | .PrefixOperator .. =>
    match side with
    | .Right => false
    | .Left => decide (bp.any_operator.left < (bp.binary parent).left)
  | .PostfixOperator .. =>
    match side with
    | .Left => false
    | .Right => decide (bp.any_operator.left < (bp.binary parent).right)
  | .Lambda .. => needs_parens_between (bp.binary parent) (bp.binary .JsonGet) side
  | _ => false

def is_sign (op : UnaryOperator) : Bool := op == .Minus || op == .Plus

def prefix_operand_needs_parens (bp : BindingPowerTable) (op : UnaryOperator) (operand : Expr) :
    Bool :=
  match operand with
  | .BinaryOp _ child _ => decide ((bp.binary child).left < bp.prefix_power op)
  | .UnaryOp inner _ => is_sign op && is_sign inner
  | .Between .. | .Like .. | .LikeEscape .. =>
    decide (bp.range_predicate.left < bp.prefix_power op)
  | .IsNull .. | .IsTruth .. => decide (bp.predicate.left < bp.prefix_power op)
  | .NamedOperator .. | .PrefixOperator .. | .PostfixOperator .. =>
    decide (bp.any_operator.left < bp.prefix_power op)
  | .Lambda .. => decide ((bp.binary .JsonGet).left < bp.prefix_power op)
  | _ => false

def operand_needs_parens (bp : BindingPowerTable) (parent : BindingPower) (child : Expr)
    (side : Side) : Bool :=
  match child with
  | .BinaryOp _ op _ => needs_parens_between parent (bp.binary op) side
  | .UnaryOp op _ => side == .Left && decide (bp.prefix_power op < parent.left)
  | .Between .. | .Like .. | .LikeEscape .. => needs_parens_between parent bp.range_predicate side
  | .IsNull .. | .IsTruth .. => needs_parens_between parent bp.predicate side
  | .Collate .. => needs_parens_between parent bp.collate side
  | .AtTimeZone .. => needs_parens_between parent bp.at_time_zone side
  | .NamedOperator .. => needs_parens_between parent bp.any_operator side
  | .PrefixOperator .. => side == .Left && decide (bp.any_operator.left < parent.left)
  | .PostfixOperator .. => side == .Right && decide (bp.any_operator.left < parent.right)
  | .Lambda .. => needs_parens_between parent (bp.binary .JsonGet) side
  | _ => false

def prefix_extension_operand_needs_parens (table : BindingPowerTable) (bp : Nat)
    (operand : Expr) : Bool :=
  match operand with
  | .BinaryOp _ op _ => decide ((table.binary op).left < bp)
  | .IsNull .. | .IsTruth .. => decide (table.predicate.left < bp)
  | .Between .. | .Like .. | .LikeEscape .. => decide (table.range_predicate.left < bp)
  | .NamedOperator .. | .PrefixOperator .. | .PostfixOperator .. =>
    decide (table.any_operator.left < bp)
  | .Lambda .. => decide ((table.binary .JsonGet).left < bp)
  | _ => false

/-! ## Spellings -/

def ident : Ident → List Char
  | .Word text => text
  | .Keyword keyword => keyword.as_str.toList
  | .Quoted text => text

def literal : Literal → List Char
  | .Null => "NULL".toList
  | .Boolean true => "TRUE".toList
  | .Boolean false => "FALSE".toList
  | .Number text => text
  | .String text => text

def binary_operator : BinaryOperator → String
  | .Plus => "+"
  | .Minus => "-"
  | .Multiply => "*"
  | .Divide => "/"
  | .Modulo .Percent => "%"
  | .Modulo .Mod => "MOD"
  | .IntegerDivide .Div => "DIV"
  | .IntegerDivide .SlashSlash => "//"
  | .Exponent => "^"
  | .StringConcat => "||"
  | .Contains => "@>"
  | .ContainedBy => "<@"
  | .Overlap => "&&"
  | .JsonGet => "->"
  | .JsonGetText => "->>"
  | .JsonExists => "?"
  | .JsonExistsAny => "?|"
  | .JsonExistsAll => "?&"
  | .JsonPathExists => "@?"
  | .JsonPathMatch => "@@"
  | .JsonExtractPath => "#>"
  | .JsonExtractPathText => "#>>"
  | .JsonDeletePath => "#-"
  | .BitwiseOr => "|"
  | .BitwiseAnd => "&"
  | .BitwiseShiftLeft => "<<"
  | .BitwiseShiftRight => ">>"
  | .BitwiseXor .Hash => "#"
  | .BitwiseXor .Caret => "^"
  | .Eq .Single => "="
  | .Eq .Double => "=="
  | .NotEq .Bang => "!="
  | .NotEq .AngleBracket => "<>"
  | .Lt => "<"
  | .LtEq => "<="
  | .Gt => ">"
  | .GtEq => ">="
  | .IsDistinctFrom .Keyword => "IS DISTINCT FROM"
  | .IsDistinctFrom .Is => "IS NOT"
  | .IsNotDistinctFrom .Keyword => "IS NOT DISTINCT FROM"
  | .IsNotDistinctFrom .NullSafeEq => "<=>"
  | .IsNotDistinctFrom .Is => "IS"
  | .Regexp .Rlike => "RLIKE"
  | .Regexp .Regexp => "REGEXP"
  | .Glob => "GLOB"
  | .StartsWith => "^@"
  | .Match => "MATCH"
  | .Overlaps => "OVERLAPS"
  | .And => "AND"
  | .Xor => "XOR"
  | .Or => "OR"

def unary_operator : UnaryOperator → String
  | .Not => "NOT"
  | .Minus => "-"
  | .Plus => "+"
  | .BitwiseNot => "~"
  | .Prior => "PRIOR"

def null_test (negated : Bool) : NullTestSpelling → String
  | .Is => bif negated then " IS NOT NULL" else " IS NULL"
  | .Postfix => bif negated then " NOTNULL" else " ISNULL"
  | .PostfixNotNull => " NOT NULL"

def truth_test (negated : Bool) : TruthValue → String
  | .True => bif negated then " IS NOT TRUE" else " IS TRUE"
  | .False => bif negated then " IS NOT FALSE" else " IS FALSE"
  | .Unknown => bif negated then " IS NOT UNKNOWN" else " IS UNKNOWN"

def like (negated : Bool) : LikeSpelling → String
  | .Like => bif negated then " NOT LIKE " else " LIKE "
  | .ILike => bif negated then " NOT ILIKE " else " ILIKE "
  | .SimilarTo => bif negated then " NOT SIMILAR TO " else " SIMILAR TO "

/-- A run of operator tokens, with a blank between them so that they stay apart. -/
def symbol (op : List Operator) : List Char := [' '].intercalate (op.map Operator.text)

def named_operator (schema : List Ident) (op : List Operator) : NamedOperatorSpelling → List Char
  | .Bare => ' ' :: (symbol op ++ [' '])
  | .OperatorKeyword =>
    " OPERATOR(".toList ++ (schema.flatMap (fun part => ident part ++ ['.']) ++
      (symbol op ++ ") ".toList))

/-! ## Expressions -/

def render_operand (needs_parens : Bool) (child : List Char) : List Char :=
  bif needs_parens then '(' :: (child ++ [')']) else child

/-- The canonical text of an expression for a target with the binding powers `bp`. -/
def expr (bp : BindingPowerTable) : Expr → List Char
  | .Column name => ident name
  | .Literal value => literal value
  | .BinaryOp left op right =>
    render_operand (binary_child_needs_parens bp op left .Left) (expr bp left) ++
      (' ' :: ((binary_operator op).toList ++ ' ' ::
        render_operand (binary_child_needs_parens bp op right .Right) (expr bp right)))
  | .UnaryOp op operand =>
    (unary_operator op).toList ++ ((if op == .Not || op == .Prior then [' '] else []) ++
      render_operand (prefix_operand_needs_parens bp op operand) (expr bp operand))
  | .IsNull operand negated spelling =>
    render_operand (operand_needs_parens bp bp.predicate operand .Left) (expr bp operand) ++
      (null_test negated spelling).toList
  | .IsTruth operand value negated =>
    render_operand (operand_needs_parens bp bp.predicate operand .Left) (expr bp operand) ++
      (truth_test negated value).toList
  | .Between operand low high negated symmetric =>
    render_operand (operand_needs_parens bp bp.range_predicate operand .Left) (expr bp operand) ++
      ((bif negated then " NOT BETWEEN " else " BETWEEN ").toList ++
        ((bif symmetric then "SYMMETRIC " else "").toList ++
          (render_operand (operand_needs_parens bp bp.range_predicate low .Right) (expr bp low) ++
            (" AND ".toList ++
              render_operand (operand_needs_parens bp bp.range_predicate high .Right)
                (expr bp high)))))
  | .Like operand pattern negated spelling =>
    render_operand (operand_needs_parens bp bp.range_predicate operand .Left) (expr bp operand) ++
      ((like negated spelling).toList ++
        render_operand (operand_needs_parens bp bp.range_predicate pattern .Right)
          (expr bp pattern))
  | .LikeEscape operand pattern escape negated spelling =>
    render_operand (operand_needs_parens bp bp.range_predicate operand .Left) (expr bp operand) ++
      ((like negated spelling).toList ++
        (render_operand (operand_needs_parens bp bp.range_predicate pattern .Right)
          (expr bp pattern) ++
          (" ESCAPE ".toList ++
            render_operand (operand_needs_parens bp bp.range_predicate escape .Right)
              (expr bp escape))))
  | .Collate operand collation =>
    render_operand (operand_needs_parens bp bp.collate operand .Left) (expr bp operand) ++
      (" COLLATE ".toList ++ ident collation)
  | .AtTimeZone operand zone =>
    render_operand (operand_needs_parens bp bp.at_time_zone operand .Left) (expr bp operand) ++
      (" AT TIME ZONE ".toList ++
        render_operand (operand_needs_parens bp bp.at_time_zone zone .Right) (expr bp zone))
  | .NamedOperator left schema op right spelling =>
    render_operand (operand_needs_parens bp bp.any_operator left .Left) (expr bp left) ++
      (named_operator schema op spelling ++
        render_operand (operand_needs_parens bp bp.any_operator right .Right) (expr bp right))
  | .PrefixOperator op operand =>
    op.text ++ (' ' :: render_operand
      (prefix_extension_operand_needs_parens bp bp.any_operator.left operand) (expr bp operand))
  | .PostfixOperator operand op =>
    render_operand (operand_needs_parens bp bp.any_operator operand .Left) (expr bp operand) ++
      ' ' :: op.text
  | .Lambda param spelling body =>
    render_operand (spelling == .Parenthesized) (ident param) ++
      (" -> ".toList ++
        render_operand (operand_needs_parens bp (bp.binary .JsonGet) body .Right) (expr bp body))

end squonk.render
