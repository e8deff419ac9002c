import Squonk.Climbing.Climb
import Squonk.Parser.Expr.Core

/-!
# The expression climb as a precedence climb

The tokens that operands and operators are written with, and the decisions the parser takes on
them, as a reader of concrete expressions.
-/

open squonk.ast squonk.tokenizer squonk.dialect squonk.precedence climbing

namespace squonk.parser.expr

inductive Atom
  | column (name : Ident)
  | literal (value : Literal)
  deriving DecidableEq

def Atom.build : Atom → Expr
  | .column name => .Column name
  | .literal value => .Literal value

/-- An expression as it is written. -/
abbrev Written := Cst Atom Prefix Infix Postfix

/-! ## Spellings -/

def ident_token : Ident → Token
  | .Word text => .word text
  | .Keyword keyword => .keyword keyword
  | .Quoted text => .quoted_ident text

def literal_token : Literal → Token
  | .Null => .keyword .Null
  | .Boolean true => .keyword .True
  | .Boolean false => .keyword .False
  | .Number text => .number text
  | .String text => .string text

def Atom.token : Atom → Token
  | .column name => ident_token name
  | .literal value => literal_token value

def Prefix.token : Prefix → Token
  | .unary .Not => .keyword .Not
  | .unary .Minus => .operator .Minus
  | .unary .Plus => .operator .Plus
  | .unary .BitwiseNot => .operator .Tilde
  | .unary .Prior => .keyword .Prior
  | .symbol op => .operator op

/-- The tokens of some keywords. -/
def keywords (words : List Keyword) : List Token := words.map .keyword

/-- A `NOT` in front of the keywords, if the operator is negated. -/
def negation (negated : Bool) (words : List Keyword) : List Keyword :=
  bif negated then .Not :: words else words

def BetweenModifier.words : BetweenModifier → List Keyword
  | .None => []
  | .Symmetric => [.Symmetric]
  | .Asymmetric => [.Asymmetric]

def like_words : LikeSpelling → List Keyword
  | .Like => [.Like]
  | .ILike => [.Ilike]
  | .SimilarTo => [.Similar, .To]

def truth_word : TruthValue → Keyword
  | .True => .True
  | .False => .False
  | .Unknown => .Unknown

def Infix.tokens : Infix → List Token
  | .symbol op _ => [.operator op]
  | .word keyword _ => keywords [keyword]
  | .bare op => [.operator op]
  | .construct schema op =>
    .keyword .Operator :: .lparen :: (schema.flatMap (fun name =>
      [ident_token name, .punctuation .Dot]) ++ (op.map .operator ++ [.rparen]))
  | .distinct negated => keywords (.Is :: negation negated [.Distinct, .From])
  | .equality negated => keywords (.Is :: negation negated [])
  | .negated_word keyword _ => keywords [.Not, keyword]
  | .between negated modifier => keywords (negation negated (.Between :: modifier.words))
  | .like negated spelling => keywords (negation negated (like_words spelling))
  | .at_time_zone => keywords [.At, .Time, .Zone]

/-- What separates the second right operand, where an operator reads one. -/
def Infix.separator : Infix → List Token
  | .between _ _ => [.keyword .And]
  | .like _ _ => [.keyword .Escape]
  | _ => []

def Postfix.tokens : Postfix → List Token
  | .is_null negated => keywords (.Is :: negation negated [.Null])
  | .null_word negated => keywords [bif negated then .Notnull else .Isnull]
  | .not_null => keywords [.Not, .Null]
  | .truth value negated => keywords (.Is :: negation negated [truth_word value])
  | .collate collation => [.keyword .Collate, ident_token collation]
  | .symbol op => [.operator op]

def lexicon : Lexicon Token Atom Prefix Infix Postfix where
  opening := .lparen
  closing := .rparen
  atomToks a := [a.token]
  preToks p := [p.token]
  infToks := Infix.tokens
  sepToks := Infix.separator
  postToks := Postfix.tokens

/-! ## Ranks -/

def rank (features : FeatureSet) : Infix ⊕ Postfix → BindingPower
  | .inl (.symbol _ means) => features.binding_power means
  | .inl (.word _ means) => features.binding_power means
  | .inl (.bare _) => features.binding_powers.any_operator
  | .inl (.construct _ _) => features.binding_powers.string_concat
  | .inl (.distinct _) => features.binding_powers.predicate
  | .inl (.equality _) => features.binding_powers.predicate
  | .inl (.negated_word _ _) => features.binding_power (.Eq .Single)
  | .inl (.between _ _) => features.binding_powers.range_predicate
  | .inl (.like _ _) => features.binding_powers.range_predicate
  | .inl .at_time_zone => features.binding_powers.at_time_zone
  | .inr (.collate _) => features.binding_powers.collate
  | .inr (.symbol _) => features.binding_powers.any_operator
  | .inr _ => features.binding_powers.predicate

/-- The power a right operand is read at. -/
def right_power (features : FeatureSet) : Infix → Nat
  | .equality _ => (features.binding_power (.Eq .Single)).right
  | .negated_word _ means => (features.binding_power means).right
  | o => (rank features (.inl o)).right

/-- Whether an operator refuses to chain onto one of its own rank. -/
def checks_chain : Infix ⊕ Postfix → Bool
  | .inl (.bare _) | .inl (.construct _ _) | .inl .at_time_zone => false
  | .inr (.collate _) | .inr (.symbol _) => false
  | _ => true

/-! ## The expression that is read -/

def Infix.build (features : FeatureSet) (lhs : Expr) (grouped : Bool) (o : Infix) (right : Expr) :
    Expr :=
  match o with
  | .symbol _ means | .word _ means => infix_expr features lhs grouped means right
  | .bare op => .NamedOperator lhs [] [op] right .Bare
  | .construct schema op => .NamedOperator lhs schema op right .OperatorKeyword
  | .distinct negated => .BinaryOp lhs (distinct_operator negated) right
  | .equality negated => .BinaryOp lhs (equality_operator negated) right
  | .negated_word _ means => .UnaryOp .Not (.BinaryOp lhs means right)
  | .like negated spelling => .Like lhs right negated spelling
  | .at_time_zone => .AtTimeZone lhs right
  -- never without its second operand
  | .between negated modifier => .Between lhs right right negated (modifier == .Symmetric)

def Infix.build_mixfix (lhs first second : Expr) : Infix → Expr
  | .between negated modifier => .Between lhs first second negated (modifier == .Symmetric)
  | .like negated spelling => .LikeEscape lhs first second negated spelling
  -- no other operator has a second operand
  | _ => lhs

/-- The tree a written expression is parsed to. -/
def erase (features : FeatureSet) : Written → Expr
  | .atom a => a.build
  | .group c => erase features c
  | .pre p c => p.build (erase features c)
  | .inf l o r => o.build features (erase features l) l.isGroup (erase features r)
  | .mix l o m r => o.build_mixfix (erase features l) (erase features m) (erase features r)
  | .post l q => q.build (erase features l)

/-! ## The reader -/

def atom_head (features : FeatureSet) (ts : List Token) : Option (Atom × List Token) :=
  match parse_word_or_literal features ts with
  | some (.Column name, rest) => some (.column name, rest)
  | some (.Literal value, rest) => some (.literal value, rest)
  | _ => none

def head (features : FeatureSet) : List Token → Option (Head Atom Prefix × List Token)
  | [] => none
  | t :: rest =>
    if t = .lparen then some (.opening, rest)
    else
      match prefix_operator features t with
      | some p => some (.pre p, rest)
      | none => (atom_head features (t :: rest)).map fun (a, rest) => (.atom a, rest)

/-- What a predicate or a postfix operator read at rank `left` folds to. -/
def fold_of (left : Nat) (read : Option ((Infix ⊕ Postfix) × List Token)) (ts : List Token) :
    Fold Infix Postfix × List Token :=
  match read with
  | some (.inl o, rest) => (.inf o, rest)
  | some (.inr q, rest) => (.post q, rest)
  | none => (.refused left, ts)

def symbolic_infix (features : FeatureSet) (op : Operator) : Option Infix :=
  if features.operator_syntax.custom_operators && is_bare_operator op then some (.bare op)
  else (infix_operator features op).map (.symbol op)

/-- The infix operator `o`, refused where the operand behind it is quantified. -/
def fold_infix_of (features : FeatureSet) (o : Infix) (rest : List Token) :
    Fold Infix Postfix × List Token :=
  if o.means?.any (is_quantifiable_operator features) && peek_quantifier features rest then
    (.refused (rank features (.inl o)).left, rest)
  else (.inf o, rest)

def peek_symbolic (features : FeatureSet) (ts : List Token) :
    Option (Fold Infix Postfix × List Token) :=
  match ts with
  | .operator op :: rest =>
    if features.operator_syntax.postfix_operators && is_postfix_symbolic_operator op then
      some (.either ( symbolic_infix features op) (.symbol op), rest)
    else ( symbolic_infix features op).map fun o => fold_infix_of features o rest
  | .keyword keyword :: rest =>
    if peek_operator_construct features ts then
      some (fold_of features.binding_powers.string_concat.left
        ((parse_operator_construct_head features ts).map fun (o, rest) => (.inl o, rest)) ts)
    else (keyword_operator features keyword).map fun means =>
      fold_infix_of features (.word keyword means) rest
  | _ => none

def peek (features : FeatureSet) (ts : List Token) : Option (Fold Infix Postfix × List Token) :=
  if peek_unparenthesized_in_list features ts then
    some (.refused UNPARENTHESIZED_IN_LIST.left, ts)
  else if peek_starts_predicate features ts then
    some (fold_of (predicate_binding_power features ts).left (parse_predicate_head features ts) ts)
  else
    match peek_postfix_operator features ts with
    | some op => some (fold_of (op.binding_power features.binding_powers).left
        (parse_postfix_head features op ts) ts)
    | none => peek_symbolic features ts

def continues (o : Infix) (ts : List Token) : Option (Option (List Token)) :=
  match o with
  | .between _ _ => if peek_is_keyword .And ts then some (some ts.tail) else none
  | .like _ _ => if peek_is_keyword .Escape ts then some (some ts.tail) else some none
  | _ => some none

def surely : List Token → Bool
  | .word _ :: _ | .quoted_ident _ :: _ | .number _ :: _ | .string _ :: _ | .parameter _ :: _
  | .lparen :: _ => true
  | _ => false

def reader (features : FeatureSet) : Reader Token Atom Prefix Infix Postfix where
  toLexicon := lexicon
  prePower := Prefix.power features
  left o := (rank features (.inl o)).left
  right := right_power features
  postLeft q := (rank features (.inr q)).left
  head := head features
  peek := peek features
  surely := surely
  blocked c k := checks_chain k &&
    reject_nonassoc_chain features (erase features c) (rank features k) c.isGroup
  cont := continues

end squonk.parser.expr
