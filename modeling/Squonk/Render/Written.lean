import Squonk.Parser.Expr.Reader
import Squonk.Render.Expr

/-!
# Canonical text as a written expression

The renderer's text of an expression is that of one written expression: the tree with the
parentheses that the renderer puts into it.
-/

open squonk.ast squonk.tokenizer squonk.dialect squonk.precedence squonk.parser.expr climbing

namespace squonk.render

/-- The operator that a binary operator is written with. -/
def infix_of (op : BinaryOperator) : Infix :=
  match op with
  | .Plus => .symbol .Plus op
  | .Minus => .symbol .Minus op
  | .Multiply => .symbol .Star op
  | .Divide => .symbol .Slash op
  | .Modulo .Percent => .symbol .Percent op
  | .Modulo .Mod => .word .Mod op
  | .IntegerDivide .Div => .word .Div op
  | .IntegerDivide .SlashSlash => .symbol .SlashSlash op
  | .Exponent => .symbol .Caret op
  | .StringConcat => .symbol .Concat op
  | .Contains => .symbol .AtGt op
  | .ContainedBy => .symbol .LtAt op
  | .StartsWith => .symbol .CaretAt op
  | .Overlap => .symbol .AmpAmp op
  | .JsonGet => .symbol .MinusGt op
  | .JsonGetText => .symbol .MinusGtGt op
  | .JsonExists => .symbol .Question op
  | .JsonExistsAny => .symbol .QuestionPipe op
  | .JsonExistsAll => .symbol .QuestionAmp op
  | .JsonPathExists => .symbol .AtQuestion op
  | .JsonPathMatch => .symbol .AtAt op
  | .JsonExtractPath => .symbol .HashGt op
  | .JsonExtractPathText => .symbol .HashGtGt op
  | .JsonDeletePath => .symbol .HashMinus op
  | .BitwiseOr => .symbol .Pipe op
  | .BitwiseAnd => .symbol .Amp op
  | .BitwiseShiftLeft => .symbol .ShiftLeft op
  | .BitwiseShiftRight => .symbol .ShiftRight op
  | .BitwiseXor .Hash => .symbol .Hash op
  | .BitwiseXor .Caret => .symbol .Caret op
  | .Eq .Single => .symbol .Eq op
  | .Eq .Double => .symbol .EqEq op
  | .NotEq spelling => .symbol (.NotEq spelling) op
  | .Lt => .symbol .Lt op
  | .LtEq => .symbol .LtEq op
  | .Gt => .symbol .Gt op
  | .GtEq => .symbol .GtEq op
  | .IsDistinctFrom .Keyword => .distinct false
  | .IsDistinctFrom .Is => .equality true
  | .IsNotDistinctFrom .Keyword => .distinct true
  | .IsNotDistinctFrom .NullSafeEq => .symbol .LtEqGt op
  | .IsNotDistinctFrom .Is => .equality false
  | .Regexp .Rlike => .word .Rlike op
  | .Regexp .Regexp => .word .Regexp op
  | .Glob => .word .Glob op
  | .Match => .word .Match op
  | .Overlaps => .word .Overlaps op
  | .And => .word .And op
  | .Xor => .word .Xor op
  | .Or => .word .Or op

/-- What a symbol means is the operator it writes. -/
theorem means_of_symbol {op means : BinaryOperator} {token : tokenizer.Operator}
    (h : infix_of op = .symbol token means) : means = op := by
  have hall : match infix_of op with
      | .symbol _ means => means = op
      | _ => True := by
    cases op with
    | Modulo spelling | IntegerDivide spelling | BitwiseXor spelling | Eq spelling
    | IsNotDistinctFrom spelling | IsDistinctFrom spelling | Regexp spelling =>
      cases spelling <;> first | rfl | trivial
    | _ => first | rfl | trivial
  rw [h] at hall
  exact hall

/-- A tree of operators over atoms: the nodes of one and two operands. -/
def Operators : Expr → Prop
  | .Column _ | .Literal _ => True
  | .BinaryOp l _ r => Operators l ∧ Operators r
  | .UnaryOp _ e => Operators e
  | _ => False

/-- The expression that the renderer writes for a tree of operators. -/
def written (bp : BindingPowerTable) : Expr → Written
  | .Column name => .atom (.column name)
  | .Literal value => .atom (.literal value)
  | .BinaryOp l op r =>
    .inf (.groupIf (binary_child_needs_parens bp op l .Left) (written bp l)) (infix_of op)
      (.groupIf (binary_child_needs_parens bp op r .Right) (written bp r))
  | .UnaryOp op e => .pre (.unary op) (.groupIf (prefix_operand_needs_parens bp op e) (written bp e))
  -- no tree of operators has another node
  | _ => .atom (.literal .Null)

/-- The first token of an expression. -/
def leading (c : Written) : Option Token := (c.tokens lexicon).head?

/-! ## Text -/

/-- The canonical spelling of an operator's token: keywords are in capitals. -/
def spelling : Token → List Char
  | .keyword keyword => keyword.as_str.toList.map Char.toUpper
  | .operator op => op.text
  | _ => []

def atom : Atom → List Char
  | .column name => ident name
  | .literal value => literal value

/-- A prefix operator; only words keep a blank behind them. -/
def prefix_text : Prefix → List Char
  | .unary op => (unary_operator op).toList ++ (if op == .Not || op == .Prior then [' '] else [])
  | .symbol op => op.text ++ [' ']

/-- The tokens of an operator with a blank behind each. -/
def infix_text (o : Infix) : List Char := o.tokens.flatMap fun t => spelling t ++ [' ']

/-- The tokens of a separator with a blank behind each. -/
def separator_text (o : Infix) : List Char := o.separator.flatMap fun t => spelling t ++ [' ']

def postfix_text : Postfix → List Char
  | .collate collation => " COLLATE ".toList ++ ident collation
  | q => q.tokens.flatMap fun t => ' ' :: spelling t

/-- The text of an expression as it is written, with the canonical blanks. -/
def text : Written → List Char
  | .atom a => atom a
  | .group c => '(' :: (text c ++ [')'])
  | .pre p c => prefix_text p ++ text c
  | .inf l o r => text l ++ ' ' :: ( infix_text o ++ text r)
  | .mix l o m r => text l ++ ' ' :: ( infix_text o ++ (text m ++ ' ' :: (separator_text o ++ text r)))
  | .post l q => text l ++ postfix_text q

theorem text_groupIf (needed : Bool) (c : Written) :
    text (.groupIf needed c) = render_operand needed (text c) := by
  cases needed <;> rfl

theorem infix_text_eq (op : BinaryOperator) :
    infix_text ( infix_of op) = (binary_operator op).toList ++ [' '] := by
  cases op
  all_goals first
    | rfl
    | (rename_i spelling; cases spelling <;> rfl)

/-- The canonical text is that of the written expression. -/
theorem text_written (bp : BindingPowerTable) {e : Expr} (h : Operators e) :
    text (written bp e) = expr bp e := by
  induction e with
  | Column name => rfl
  | Literal value => rfl
  | BinaryOp l op r ihl ihr =>
    rw [written, text, text_groupIf, text_groupIf, ihl h.1, ihr h.2, infix_text_eq, expr]
    simp
  | UnaryOp op e ih =>
    rw [written, text, text_groupIf, ih h, expr, prefix_text, List.append_assoc]
  | _ => exact absurd h id

end squonk.render
