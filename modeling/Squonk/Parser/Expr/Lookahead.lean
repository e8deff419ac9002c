import Squonk.Ast.Expr
import Squonk.Dialect.Feature

/-!
# Operators in front of the parser

What the tokens behind a left operand start: a predicate, a postfix operator or an infix one.
Membership tests, `OVERLAPS`, casts, subscripts, field selections and the JSON, XML and
normalization tests are told apart here and not read further.
-/

open squonk.ast squonk.tokenizer squonk.dialect squonk.precedence

namespace squonk.dialect

def PipeOperator.binary_operator : PipeOperator → BinaryOperator
  | .StringConcat => .StringConcat
  | .LogicalOr => .Or

def DoubleAmpersand.binary_operator : DoubleAmpersand → Option BinaryOperator
  | .Unsupported => none
  | .LogicalAnd => some .And
  | .Overlaps => some .Overlap

def CaretOperator.binary_operator : CaretOperator → Option BinaryOperator
  | .Unsupported => none
  | .Exponent => some .Exponent
  | .BitwiseXor => some (.BitwiseXor .Caret)

def KeywordOperators.binary_operator : KeywordOperators → Keyword → Option BinaryOperator
  | .MySql, .Div => some (.IntegerDivide .Div)
  | .MySql, .Mod => some (.Modulo .Mod)
  | .MySql, .Xor => some .Xor
  | .MySql, .Rlike => some (.Regexp .Rlike)
  | .MySql, .Regexp => some (.Regexp .Regexp)
  | .Sqlite, .Glob => some .Glob
  | .Sqlite, .Match => some .Match
  | .Sqlite, .Regexp => some (.Regexp .Regexp)
  | .DuckDb, .Glob => some .Glob
  | _, _ => none

def FeatureSet.binding_power (self : FeatureSet) (op : BinaryOperator) : BindingPower :=
  self.binding_powers.binary op

def FeatureSet.prefix_binding_power (self : FeatureSet) (op : UnaryOperator) : Nat :=
  self.binding_powers.prefix_power op

end squonk.dialect

namespace squonk.parser.expr

/-! ## Tokens -/

def peek_nth_is_keyword (n : Nat) (keyword : Keyword) (ts : List Token) : Bool :=
  ts[n]? == some (.keyword keyword)

def peek_is_keyword (keyword : Keyword) (ts : List Token) : Bool :=
  peek_nth_is_keyword 0 keyword ts

def peek_nth_is_punct (n : Nat) (punct : Punctuation) (ts : List Token) : Bool :=
  ts[n]? == some (.punctuation punct)

/-- The keyword read away where it stands first, with whether it did. -/
def eat_keyword (keyword : Keyword) (ts : List Token) : Bool × List Token :=
  if peek_is_keyword keyword ts then (true, ts.tail) else (false, ts)

/-- The name a token can stand for where a column name is due. -/
def column_name (features : FeatureSet) : Token → Option Ident
  | .word text =>
    if features.reserved_words.any fun word => word.toList == text.map Char.toLower then none
    else some (.Word text)
  | .quoted_ident text => some (.Quoted text)
  | .keyword keyword =>
    if features.reserved_column_name keyword then none else some (.Keyword keyword)
  | _ => none

def token_can_be_label : Token → Bool
  | .word _ | .quoted_ident _ | .keyword _ => true
  | _ => false

/-! ## Operators -/

/-- What stands behind `BETWEEN`. -/
inductive BetweenModifier | None | Symmetric | Asymmetric
  deriving DecidableEq

/-- An operator with an operand on both sides. -/
inductive Infix
  | symbol (op : Operator) (means : BinaryOperator)
  | word (keyword : Keyword) (means : BinaryOperator)
  /-- A symbolic operator the dialect has no meaning for. -/
  | bare (op : Operator)
  | construct (schema : List Ident) (op : List Operator)
  | distinct (negated : Bool)
  /-- `IS` as an equality. -/
  | equality (negated : Bool)
  | negated_word (keyword : Keyword) (means : BinaryOperator)
  | between (negated : Bool) (modifier : BetweenModifier)
  | like (negated : Bool) (spelling : LikeSpelling)
  | at_time_zone
  deriving DecidableEq

/-- An operator behind its only operand. -/
inductive Postfix
  | is_null (negated : Bool)
  /-- `ISNULL` or `NOTNULL`. -/
  | null_word (negated : Bool)
  | not_null
  | truth (value : TruthValue) (negated : Bool)
  | collate (collation : Ident)
  | symbol (op : Operator)
  deriving DecidableEq

def infix_operator (features : FeatureSet) : Operator → Option BinaryOperator
  | .Plus => some .Plus
  | .Minus => some .Minus
  | .Star => some .Multiply
  | .Slash => some .Divide
  | .SlashSlash => some (.IntegerDivide .SlashSlash)
  | .Percent => some (.Modulo .Percent)
  | .Eq => some (.Eq .Single)
  | .EqEq => some (.Eq .Double)
  | .NotEq spelling => some (.NotEq spelling)
  | .Lt => some .Lt
  | .LtEq => some .LtEq
  | .Gt => some .Gt
  | .GtEq => some .GtEq
  | .LtEqGt => some (.IsNotDistinctFrom .NullSafeEq)
  | .Concat => some features.pipe_operator.binary_operator
  | .AmpAmp => features.double_ampersand.binary_operator
  | .AtGt => some .Contains
  | .LtAt => some .ContainedBy
  | .CaretAt => some .StartsWith
  | .MinusGt => some .JsonGet
  | .MinusGtGt => some .JsonGetText
  | .Question => some .JsonExists
  | .QuestionPipe => some .JsonExistsAny
  | .QuestionAmp => some .JsonExistsAll
  | .AtQuestion => some .JsonPathExists
  | .AtAt => some .JsonPathMatch
  | .HashGt => some .JsonExtractPath
  | .HashGtGt => some .JsonExtractPathText
  | .HashMinus => some .JsonDeletePath
  | .Pipe => if features.operator_syntax.bitwise_operators then some .BitwiseOr else none
  | .Amp => if features.operator_syntax.bitwise_operators then some .BitwiseAnd else none
  | .ShiftLeft => if features.operator_syntax.bitwise_operators then some .BitwiseShiftLeft else none
  | .ShiftRight =>
    if features.operator_syntax.bitwise_operators then some .BitwiseShiftRight else none
  | .Caret => features.caret_operator.binary_operator
  | .Hash => if features.hash_bitwise_xor then some (.BitwiseXor .Hash) else none
  | .Bang | .Tilde | .Custom _ | .Arrow | .ColonEquals | .PipeArrow => none

/-- The infix operator of a keyword. -/
def keyword_operator (features : FeatureSet) : Keyword → Option BinaryOperator
  | .And => some .And
  | .Or => some .Or
  | keyword => features.keyword_operators.binary_operator keyword

def peek_infix_operator (features : FeatureSet) : List Token → Option Infix
  | .operator op :: _ => (infix_operator features op).map (.symbol op)
  | .keyword keyword :: _ => (keyword_operator features keyword).map (.word keyword)
  | _ => none

/-- The keyword operator `n` tokens ahead. -/
def keyword_operator_at (features : FeatureSet) (n : Nat) (ts : List Token) :
    Option (Keyword × BinaryOperator) :=
  match ts[n]? with
  | some (.keyword keyword) =>
    (features.keyword_operators.binary_operator keyword).map (keyword, ·)
  | _ => none

def is_comparison_operator : BinaryOperator → Bool
  | .Eq _ | .NotEq _ | .Lt | .LtEq | .Gt | .GtEq => true
  | _ => false

def is_quantifiable_operator (features : FeatureSet) (op : BinaryOperator) : Bool :=
  is_comparison_operator op ||
    (features.operator_syntax.quantified_arbitrary_operator && !(op == .And || op == .Or))

/-- Whether a quantifier follows. -/
def peek_quantifier (features : FeatureSet) (ts : List Token) : Bool :=
  features.operator_syntax.quantified_comparisons &&
    (peek_is_keyword .Any ts || peek_is_keyword .All ts || peek_is_keyword .Some ts)

/-- The operators that stand behind an operand where nothing to apply them to follows. -/
def is_postfix_symbolic_operator : Operator → Bool
  | .Custom _ | .Tilde | .Bang | .AmpAmp | .Amp | .Pipe | .ShiftLeft | .ShiftRight | .Concat
  | .LtAt | .AtGt | .CaretAt => true
  | _ => false

/-! ## Predicates -/

def similar_to_at (n : Nat) (ts : List Token) : Bool :=
  peek_nth_is_keyword n .Similar ts && peek_nth_is_keyword (n + 1) .To ts

/-- A range, pattern or membership predicate `n` tokens ahead. -/
def range_predicate_at (features : FeatureSet) (n : Nat) (ts : List Token) : Bool :=
  peek_nth_is_keyword n .In ts || peek_nth_is_keyword n .Between ts ||
    (features.predicate_syntax.like && peek_nth_is_keyword n .Like ts) ||
    (features.predicate_syntax.ilike && peek_nth_is_keyword n .Ilike ts) ||
    (features.predicate_syntax.similar_to && similar_to_at n ts)

def peek_starts_range_predicate (features : FeatureSet) (ts : List Token) : Bool :=
  range_predicate_at features 0 ts ||
    (peek_is_keyword .Not ts && range_predicate_at features 1 ts)

def peek_overlaps (features : FeatureSet) (ts : List Token) : Bool :=
  features.predicate_syntax.overlaps_period_predicate && peek_is_keyword .Overlaps ts

def peek_starts_predicate (features : FeatureSet) (ts : List Token) : Bool :=
  peek_is_keyword .Is ts ||
    (features.operator_syntax.null_test_postfix &&
      (peek_is_keyword .Isnull ts || peek_is_keyword .Notnull ts)) ||
    peek_overlaps features ts || peek_starts_range_predicate features ts ||
    (peek_is_keyword .Not ts &&
      (features.predicate_syntax.null_test_two_word_postfix && peek_nth_is_keyword 1 .Null ts ||
        (keyword_operator_at features 1 ts).isSome))

def predicate_binding_power (features : FeatureSet) (ts : List Token) : BindingPower :=
  if peek_overlaps features ts then OVERLAPS_PREDICATE
  else if peek_starts_range_predicate features ts then features.binding_powers.range_predicate
  else if peek_is_keyword .Not ts && (keyword_operator_at features 1 ts).isSome then
    features.binding_power (.Eq .Single)
  else features.binding_powers.predicate

def truth_value : Option Token → Option TruthValue
  | some (.keyword .True) => some .True
  | some (.keyword .False) => some .False
  | some (.keyword .Unknown) => some .Unknown
  | _ => none

/-- Whether a normalization test follows. -/
def peek_normalized (ts : List Token) : Bool :=
  peek_is_keyword .Normalized ts ||
    ((peek_is_keyword .Nfc ts || peek_is_keyword .Nfd ts || peek_is_keyword .Nfkc ts ||
      peek_is_keyword .Nfkd ts) && peek_nth_is_keyword 1 .Normalized ts)

/-- The predicate behind `IS` and an optional `NOT`. -/
def is_predicate (features : FeatureSet) (negated : Bool) (ts : List Token) :
    Option ((Infix ⊕ Postfix) × List Token) :=
  if features.predicate_syntax.is_distinct_from && peek_is_keyword .Distinct ts then
    if peek_nth_is_keyword 1 .From ts then some (.inl (.distinct negated), ts.drop 2) else none
  else
    match if features.operator_syntax.truth_value_tests then truth_value ts.head? else none with
    | some value => some (.inr (.truth value negated), ts.tail)
    | none =>
      if features.call_syntax.sqljson_expression_functions && peek_is_keyword .Json ts then none
      else if features.call_syntax.xml_expression_functions && peek_is_keyword .Document ts then
        none
      else if features.predicate_syntax.is_normalized && peek_normalized ts then none
      else if features.operator_syntax.is_general_equality && !peek_is_keyword .Null ts then
        some (.inl (.equality negated), ts)
      else if peek_is_keyword .Null ts then some (.inr (.is_null negated), ts.tail)
      else none

/-- The modifier behind `BETWEEN`, where the dialect has one. -/
def between_modifier (features : FeatureSet) (ts : List Token) : BetweenModifier × List Token :=
  if features.predicate_syntax.between_symmetric then
    if peek_is_keyword .Symmetric ts then (.Symmetric, ts.tail)
    else if peek_is_keyword .Asymmetric ts then (.Asymmetric, ts.tail)
    else (.None, ts)
  else (.None, ts)

/-- A pattern match that is not quantified. -/
def like_predicate (features : FeatureSet) (negated : Bool) (spelling : LikeSpelling)
    (ts : List Token) : Option ((Infix ⊕ Postfix) × List Token) :=
  if features.predicate_syntax.pattern_match_quantifier && spelling != .SimilarTo &&
      peek_quantifier features ts then
    none
  else some (.inl (.like negated spelling), ts)

/-- The predicate at the front, with the input behind the tokens that name it. -/
def parse_predicate_head (features : FeatureSet) (ts : List Token) :
    Option ((Infix ⊕ Postfix) × List Token) :=
  if peek_overlaps features ts then none
  else if peek_is_keyword .Is ts then
    let (negated, rest) := eat_keyword .Not ts.tail
    is_predicate features negated rest
  else if features.operator_syntax.null_test_postfix && peek_is_keyword .Isnull ts then
    some (.inr (.null_word false), ts.tail)
  else if features.operator_syntax.null_test_postfix && peek_is_keyword .Notnull ts then
    some (.inr (.null_word true), ts.tail)
  else
    let (negated, rest) := eat_keyword .Not ts
    if negated && features.predicate_syntax.null_test_two_word_postfix &&
        peek_is_keyword .Null rest then
      some (.inr .not_null, rest.tail)
    else if peek_is_keyword .Between rest then
      let (modifier, rest) := between_modifier features rest.tail
      some (.inl (.between negated modifier), rest)
    else if features.predicate_syntax.like && peek_is_keyword .Like rest then
      like_predicate features negated .Like rest.tail
    else if features.predicate_syntax.ilike && peek_is_keyword .Ilike rest then
      like_predicate features negated .ILike rest.tail
    else if features.predicate_syntax.similar_to && peek_is_keyword .Similar rest then
      if peek_nth_is_keyword 1 .To rest then
        like_predicate features negated .SimilarTo (rest.drop 2)
      else none
    else
      match if negated then keyword_operator_at features 0 rest else none with
      | some (keyword, op) => some (.inl (.negated_word keyword op), rest.tail)
      | none => none

/-- Whether an operand of the membership test without parentheses starts `n` tokens ahead. -/
def token_opens_in_expr_rhs (n : Nat) (ts : List Token) : Bool :=
  let next_is_string := match ts[n + 1]? with
    | some (.string _) => true
    | _ => false
  match ts[n]? with
  | some (.punctuation .LParen) => false
  | some (.number _) => false
  | some (.string _) => false
  | some (.keyword keyword) =>
    !(keyword == .Null || keyword == .True || keyword == .False) &&
      !(keyword == .Row && peek_nth_is_punct (n + 1) .LParen ts) && !next_is_string
  | some (.word _) => !next_is_string
  | some (.quoted_ident _) => !next_is_string
  | some (.operator op) => !(op == .Minus || op == .Plus || op == .Tilde || op == .Star)
  | some _ => true
  | none => false

/-- Whether a membership test without parentheses follows. -/
def peek_unparenthesized_in_list (features : FeatureSet) (ts : List Token) : Bool :=
  features.predicate_syntax.unparenthesized_in_list &&
    (peek_is_keyword .In ts && token_opens_in_expr_rhs 1 ts ||
      peek_is_keyword .Not ts && peek_nth_is_keyword 1 .In ts && token_opens_in_expr_rhs 2 ts)

/-! ## Other operators -/

/-- The operators of the postfix family. -/
inductive PostfixOp
  | Typecast | Subscript | SemiStructuredAccess | Collate | AtTimeZone | FieldSelection
  | FieldWildcard
  deriving DecidableEq

/-- The postfix operator at the front, whatever its power. -/
def peek_postfix_operator (features : FeatureSet) : List Token → Option PostfixOp
  | .punctuation .DoubleColon :: _ =>
    if features.expression_syntax.typecast_operator then some .Typecast else none
  | .punctuation .LBracket :: _ =>
    if features.expression_syntax.subscript then some .Subscript else none
  | .punctuation .Colon :: ts =>
    if features.expression_syntax.semi_structured_access && ts.head?.any token_can_be_label then
      some .SemiStructuredAccess
    else none
  | .punctuation .Dot :: ts =>
    if features.expression_syntax.field_selection && ts.head?.any token_can_be_label then
      some .FieldSelection
    else if features.expression_syntax.field_wildcard && ts.head? == some (.operator .Star) then
      some .FieldWildcard
    else none
  | ts =>
    if features.expression_syntax.collate && peek_is_keyword .Collate ts &&
        ts.tail.head?.any fun t => (column_name features t).isSome then
      some .Collate
    else if features.expression_syntax.at_time_zone && peek_is_keyword .At ts &&
        peek_nth_is_keyword 1 .Time ts && peek_nth_is_keyword 2 .Zone ts then
      some .AtTimeZone
    else none

def PostfixOp.binding_power (powers : BindingPowerTable) : PostfixOp → BindingPower
  | .Typecast => powers.typecast
  | .Subscript | .SemiStructuredAccess => powers.subscript
  | .Collate => powers.collate
  | .AtTimeZone => powers.at_time_zone
  | .FieldSelection | .FieldWildcard => powers.field_selection

/-- The collation or the zone marker at the front, with the input behind it. The other postfix
    operators and qualified collations are not read. -/
def parse_postfix_head (features : FeatureSet) (op : PostfixOp) (ts : List Token) :
    Option ((Infix ⊕ Postfix) × List Token) :=
  match op with
  | .Collate =>
    if peek_nth_is_punct 2 .Dot ts then none
    else (ts[1]?.bind (column_name features)).map fun name => (.inr (.collate name), ts.drop 2)
  | .AtTimeZone => some (.inl .at_time_zone, ts.drop 3)
  | _ => none

/-- Whether the explicit operator form follows. -/
def peek_operator_construct (features : FeatureSet) (ts : List Token) : Bool :=
  features.operator_syntax.operator_construct && peek_is_keyword .Operator ts &&
    peek_nth_is_punct 1 .LParen ts

/-- The schema that qualifies an operator: names with a dot behind each. -/
def operator_schema (features : FeatureSet) : List Token → List Ident × List Token
  | t :: .punctuation .Dot :: ts =>
    match column_name features t with
    | some name =>
      let (schema, rest) := operator_schema features ts
      (name :: schema, rest)
    | none => ([], t :: .punctuation .Dot :: ts)
  | ts => ([], ts)

/-- The run of operator tokens at the front. -/
def operator_symbol : List Token → List Operator × List Token
  | .operator op :: ts =>
    let (ops, rest) := operator_symbol ts
    (op :: ops, rest)
  | ts => ([], ts)

/-- `OPERATOR(…)`, with the input behind it. -/
def parse_operator_construct_head (features : FeatureSet) (ts : List Token) :
    Option (Infix × List Token) :=
  let (schema, rest) := operator_schema features (ts.drop 2)
  match operator_symbol rest with
  | (op :: ops, .rparen :: rest) => some (.construct schema (op :: ops), rest)
  | _ => none

def is_bare_operator : Operator → Bool
  | .Custom _ | .Tilde | .Bang | .AmpAmp => true
  | _ => false

/-- The symbolic operator at the front that the dialect has no meaning for. -/
def peek_bare_infix_operator (features : FeatureSet) : List Token → Option Operator
  | .operator op :: _ =>
    if features.operator_syntax.custom_operators && is_bare_operator op then some op else none
  | _ => none

end squonk.parser.expr
