import Squonk.Parser.Expr.Lookahead

/-!
# The expression climb

An expression is read as an operand and the operators behind it that bind tightly enough. A
reader fails where the source reports an error, and where it would go on with an operand or an
operator that is not modelled: calls, qualified and typed names, rows, subqueries, collection
literals, and what the lookahead leaves unread.
-/

open squonk.ast squonk.tokenizer squonk.dialect squonk.precedence

namespace squonk.parser.expr

/-- A reader of expressions of at least a binding power. -/
abbrev Climb := Nat → List Token → Option (Expr × List Token)

structure ParsedExpr where
  expr : Expr
  /-- Whether the operand stood in parentheses. -/
  grouped : Bool
  deriving DecidableEq

/-! ## Operands -/

/-- An operator in front of its only operand. -/
inductive Prefix
  | unary (op : UnaryOperator)
  | symbol (op : Operator)
  deriving DecidableEq

def Prefix.build : Prefix → Expr → Expr
  | .unary op, operand => .UnaryOp op operand
  | .symbol op, operand => .PrefixOperator op operand

/-- The power the operand of a prefix operator is read at. -/
def Prefix.power (features : FeatureSet) : Prefix → Nat
  | .unary op => features.prefix_binding_power op
  | .symbol _ => features.binding_powers.any_operator.right

/-- The operators that open an operand where any operator run is one. -/
def is_prefix_symbol : Operator → Bool
  | .Custom _ | .AtAt | .Bang | .Hash | .Amp | .Pipe | .Question | .QuestionPipe | .QuestionAmp
  | .AtQuestion | .HashGt | .HashGtGt | .HashMinus | .AtGt | .LtAt | .MinusGt | .MinusGtGt
  | .Concat | .AmpAmp | .ShiftLeft | .ShiftRight => true
  | _ => false

def prefix_operator (features : FeatureSet) : Token → Option Prefix
  | .keyword .Not => some (.unary .Not)
  | .operator .Minus => some (.unary .Minus)
  | .operator .Plus => some (.unary .Plus)
  | .operator op =>
    if op == .Tilde && features.operator_syntax.bitwise_operators then some (.unary .BitwiseNot)
    else if is_prefix_symbol op && features.operator_syntax.custom_operators then some (.symbol op)
    else none
  | _ => none

/-- Whether a name or a string in front of `ts` is not a whole operand. -/
def operand_goes_on : List Token → Bool
  | .punctuation .LParen :: _ | .punctuation .Dot :: _ | .string _ :: _ => true
  | _ => false

/-- A literal or a column, with the input behind it. -/
def parse_word_or_literal (features : FeatureSet) : List Token → Option (Expr × List Token)
  | [] => none
  | .keyword .Null :: ts => some (.Literal .Null, ts)
  | .keyword .True :: ts => some (.Literal (.Boolean true), ts)
  | .keyword .False :: ts => some (.Literal (.Boolean false), ts)
  | .number text :: ts => some (.Literal (.Number text), ts)
  | .string text :: ts =>
    if operand_goes_on ts then none else some (.Literal (.String text), ts)
  | t :: ts =>
    if operand_goes_on ts then none
    else (column_name features t).map fun name => (.Column name, ts)

/-- The operand at the front. -/
def parse_prefix (features : FeatureSet) (climb : Climb) (ts : List Token) :
    Option (ParsedExpr × List Token) :=
  match ts with
  | [] => none
  | t :: rest =>
    if t = .lparen then
      match climb 0 rest with
      | some (inner, .rparen :: rest) => some (⟨inner, true⟩, rest)
      | _ => none
    else
      match prefix_operator features t with
      | some p => (climb (p.power features) rest).map fun (operand, rest) =>
          (⟨p.build operand, false⟩, rest)
      | none => (parse_word_or_literal features ts).map fun (expr, rest) => (⟨expr, false⟩, rest)

/-! ## Operators -/

/-- Whether an operator of rank `bp` would chain onto `lhs` without being associative. -/
def lhs_chains_nonassoc (features : FeatureSet) (lhs : Expr) (level : Nat) : Bool :=
  let chains (bp : BindingPower) := bp.assoc == .NonAssoc && bp.left == level
  match lhs with
  | .BinaryOp _ op _ => chains (features.binding_power op)
  | .Between .. | .Like .. | .LikeEscape .. => chains features.binding_powers.range_predicate
  | .IsNull .. | .IsTruth .. => chains features.binding_powers.predicate
  | _ => false

def reject_nonassoc_chain (features : FeatureSet) (lhs : Expr) (bp : BindingPower)
    (grouped : Bool) : Bool :=
  bp.assoc == .NonAssoc && !grouped && lhs_chains_nonassoc features lhs bp.left

def distinct_operator (negated : Bool) : BinaryOperator :=
  bif negated then .IsNotDistinctFrom .Keyword else .IsDistinctFrom .Keyword

def equality_operator (negated : Bool) : BinaryOperator :=
  bif negated then .IsDistinctFrom .Is else .IsNotDistinctFrom .Is

def Postfix.build (operand : Expr) : Postfix → Expr
  | .is_null negated => .IsNull operand negated .Is
  | .null_word negated => .IsNull operand negated .Postfix
  | .not_null => .IsNull operand true .PostfixNotNull
  | .truth value negated => .IsTruth operand value negated
  | .collate collation => .Collate operand collation
  | .symbol op => .PostfixOperator operand op

/-- The operands of a predicate behind the tokens that name it. -/
def parse_predicate_operands (features : FeatureSet) (climb : Climb) (lhs : Expr)
    (o : Infix) (ts : List Token) : Option (Expr × List Token) :=
  let powers := features.binding_powers
  match o with
  | .between negated modifier =>
    match climb powers.range_predicate.right ts with
    | some (low, .keyword .And :: ts) =>
      (climb powers.range_predicate.right ts).map fun (high, ts) =>
        (.Between lhs low high negated (modifier == .Symmetric), ts)
    | _ => none
  | .like negated spelling =>
    match climb powers.range_predicate.right ts with
    | some (pattern, ts) =>
      if peek_is_keyword .Escape ts then
        (climb powers.range_predicate.right ts.tail).map fun (escape, ts) =>
          (.LikeEscape lhs pattern escape negated spelling, ts)
      else some (.Like lhs pattern negated spelling, ts)
    | none => none
  | .distinct negated => (climb powers.predicate.right ts).map fun (right, ts) =>
      (.BinaryOp lhs (distinct_operator negated) right, ts)
  | .equality negated => (climb (features.binding_power (.Eq .Single)).right ts).map
      fun (right, ts) => (.BinaryOp lhs (equality_operator negated) right, ts)
  | .negated_word _ op => (climb (features.binding_power op).right ts).map fun (right, ts) =>
      (.UnaryOp .Not (.BinaryOp lhs op right), ts)
  | _ => none

def parse_predicate (features : FeatureSet) (climb : Climb) (lhs : Expr) (ts : List Token) :
    Option (Expr × List Token) :=
  match parse_predicate_head features ts with
  | none => none
  | some (.inr q, ts) => some (q.build lhs, ts)
  | some (.inl o, ts) => parse_predicate_operands features climb lhs o ts

def parse_postfix (features : FeatureSet) (climb : Climb) (lhs : Expr) (op : PostfixOp)
    (ts : List Token) : Option (Expr × List Token) :=
  match parse_postfix_head features op ts with
  | none => none
  | some (.inr q, ts) => some (q.build lhs, ts)
  | some (.inl _, ts) => (climb features.binding_powers.at_time_zone.right ts).map
      fun (zone, ts) => (.AtTimeZone lhs zone, ts)

/-- Whether an operand starts behind the operator at the front. -/
def peek_operand_follows_operator (features : FeatureSet) (climb : Climb) (ts : List Token) :
    Bool :=
  match ts.tail with
  | .word _ :: _ | .quoted_ident _ :: _ | .number _ :: _ | .string _ :: _ | .parameter _ :: _
  | .lparen :: _ => true
  | rest => ( parse_prefix features climb rest).isSome

def peek_postfix_symbolic_operator (features : FeatureSet) (climb : Climb) (ts : List Token) :
    Option Operator :=
  match ts with
  | .operator op :: _ =>
    if is_postfix_symbolic_operator op && !peek_operand_follows_operator features climb ts then
      some op
    else none
  | _ => none

def parse_operator_construct (features : FeatureSet) (climb : Climb) (lhs : Expr)
    (right_bp : Nat) (ts : List Token) : Option (Expr × List Token) :=
  match parse_operator_construct_head features ts with
  | some (.construct schema op, ts) => (climb right_bp ts).map fun (right, ts) =>
      (.NamedOperator lhs schema op right .OperatorKeyword, ts)
  | _ => none

def parse_bare_infix_operator (climb : Climb) (lhs : Expr) (op : Operator) (right_bp : Nat)
    (ts : List Token) : Option (Expr × List Token) :=
  (climb right_bp ts.tail).map fun (right, ts) => (.NamedOperator lhs [] [op] right .Bare, ts)

/-- The parameter of a lambda with the left operand `lhs`. -/
def lambda_param (lhs : Expr) (grouped : Bool) : Option (Ident × LambdaParamSpelling) :=
  match lhs with
  | .Column name => some (name, bif grouped then .Parenthesized else .Bare)
  | _ => none

/-- What `lhs op right` builds. -/
def infix_expr (features : FeatureSet) (lhs : Expr) (grouped : Bool) (op : BinaryOperator)
    (right : Expr) : Expr :=
  if op == .JsonGet && features.operator_syntax.lambda_expressions then
    match lambda_param lhs grouped with
    | some (param, spelling) => .Lambda param spelling right
    | none => .BinaryOp lhs op right
  else .BinaryOp lhs op right

def fold_infix (features : FeatureSet) (climb : Climb) (lhs : Expr) (grouped : Bool)
    (op : BinaryOperator) (bp : BindingPower) (ts : List Token) : Option (Expr × List Token) :=
  if reject_nonassoc_chain features lhs bp grouped then none
  else
    let lambda := op == .JsonGet && features.operator_syntax.lambda_expressions &&
      (lambda_param lhs grouped).isSome
    if !lambda && is_quantifiable_operator features op && peek_quantifier features ts.tail then
      none
    else (climb bp.right ts.tail).map fun (right, ts) =>
      (infix_expr features lhs grouped op right, ts)

/-! ## The climb -/

/-- What a turn of the climb comes to when it does not fail. -/
inductive Turn
  | break
  | continue (lhs : Expr) (rest : List Token)
  deriving DecidableEq

/-- Fold what a reader read, where its power allows. -/
def Turn.fold (left min_bp : Nat) (read : Option (Expr × List Token)) : Option Turn :=
  if left < min_bp then some .break else read.map fun (lhs, rest) => .continue lhs rest

def Infix.means? : Infix → Option BinaryOperator
  | .symbol _ means | .word _ means => some means
  | _ => none

/-- The explicit form, an operator without a meaning of its own, and at last one of the
    dialect's infix operators. -/
def infix_turn (features : FeatureSet) (climb : Climb) (min_bp : Nat) (lhs : Expr)
    (grouped : Bool) (ts : List Token) : Option Turn :=
  let powers := features.binding_powers
  if peek_operator_construct features ts then
    Turn.fold powers.string_concat.left min_bp
      (parse_operator_construct features climb lhs powers.string_concat.right ts)
  else
    match peek_bare_infix_operator features ts with
    | some op =>
      Turn.fold powers.any_operator.left min_bp
        (parse_bare_infix_operator climb lhs op powers.any_operator.right ts)
    | none =>
      match (peek_infix_operator features ts).bind Infix.means? with
      | some op =>
        let bp := features.binding_power op
        Turn.fold bp.left min_bp ( fold_infix features climb lhs grouped op bp ts)
      | none => some .break

/-- The part of a turn that follows predicates and postfix operators: first a symbolic
    operator with nothing to apply it to. -/
def symbolic_turn (features : FeatureSet) (climb : Climb) (min_bp : Nat) (lhs : Expr)
    (grouped : Bool) (ts : List Token) : Option Turn :=
  match if features.operator_syntax.postfix_operators &&
      min_bp ≤ features.binding_powers.any_operator.left then
    peek_postfix_symbolic_operator features climb ts else none with
  | some op => some (.continue (.PostfixOperator lhs op) ts.tail)
  | none => infix_turn features climb min_bp lhs grouped ts

/-- One turn of the climb: the operator behind `lhs` is folded onto it, or ends the climb. -/
def climb_turn (features : FeatureSet) (climb : Climb) (min_bp : Nat) (lhs : Expr)
    (grouped : Bool) (ts : List Token) : Option Turn :=
  if peek_unparenthesized_in_list features ts then
    Turn.fold UNPARENTHESIZED_IN_LIST.left min_bp none
  else if peek_starts_predicate features ts then
    let bp := predicate_binding_power features ts
    Turn.fold bp.left min_bp
      (if reject_nonassoc_chain features lhs bp grouped then none
        else parse_predicate features climb lhs ts)
  else
    match (peek_postfix_operator features ts).filter fun op =>
        min_bp ≤ (op.binding_power features.binding_powers).left with
    | some op => Turn.fold min_bp min_bp ( parse_postfix features climb lhs op ts)
    | none => symbolic_turn features climb min_bp lhs grouped ts

/-- The turns of the climb. Each takes a token, so the tokens behind the operand bound them. -/
def climb_loop (features : FeatureSet) (climb : Climb) (min_bp : Nat) :
    Nat → Expr → Bool → List Token → Option (Expr × List Token)
  | 0, lhs, _, ts => some (lhs, ts)
  | turns + 1, lhs, grouped, ts =>
    match climb_turn features climb min_bp lhs grouped ts with
    | none => none
    | some .break => some (lhs, ts)
    | some (.continue lhs ts) => climb_loop features climb min_bp turns lhs false ts

/-- Read an expression of at least the power `min_bp`, nesting at most `depth` deep. -/
def parse_expr_bp (features : FeatureSet) : Nat → Climb
  | 0, _, _ => none
  | depth + 1, min_bp, ts =>
    match parse_prefix features (parse_expr_bp features depth) ts with
    | none => none
    | some (parsed, ts) =>
      climb_loop features (parse_expr_bp features depth) min_bp ts.length parsed.expr
        parsed.grouped ts

def parse_expr (features : FeatureSet) (depth : Nat) (ts : List Token) :
    Option (Expr × List Token) :=
  parse_expr_bp features depth 0 ts

end squonk.parser.expr
