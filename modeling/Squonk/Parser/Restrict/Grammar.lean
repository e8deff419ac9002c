import Mathlib
import Squonk.Parser.Expr.Chain.Climb
import Squonk.Parser.Method.Values

/-!
# Restricted expressions

The grammar of expressions with the restriction of `b_expr`: the climb with all of its operators,
the operands that hold expressions or queries of their own, and the part of a query whose
expressions are read in more than one way. Every expression between delimiters is kept with the
flag it was read under. A reader fails where the source would go on with what is not modelled:
qualified and typed names, the clauses in and behind an argument list, the modifiers of the SQL/JSON and
XML functions, and of a query all but `SELECT`, `FROM`, `WHERE` and `LIMIT`.
-/

open squonk.ast squonk.tokenizer squonk.dialect squonk.precedence
open squonk.parser.method (Mode Method Entry)
open squonk.parser.expr (Prefix PostfixOp prefix_operator)
open squonk.parser.expr.chain (Node Binary Suffix Quantifier)

namespace squonk.parser.restrict

/-- The gates of the forms that hold an expression. -/
structure FormSyntax where
  row_constructor : Bool
  lambda_keyword : Bool
  slice_step : Bool
  method_chaining : Bool
  position_in : Bool
  position_asymmetric_operands : Bool
  match_against : Bool
  table_version : Bool
  deriving DecidableEq

namespace FormSyntax

def DUCKDB : FormSyntax := ⟨true, true, true, true, true, false, false, false⟩

end FormSyntax

/-! ## Trees -/

mutual

inductive Expr
  | Atom (expr : ast.Expr)
  /-- An expression in parentheses, which the tree of the source does not keep. -/
  | Group (inner : Nested)
  | Row (fields : List Nested)
  | Subquery (query : Query)
  | Exists (query : Query)
  | Function (name : Token) (args : List Nested)
  /-- A call behind its receiver, which the source makes the first argument. -/
  | MethodCall (receiver : Expr) (name : Token) (args : List Nested)
  | Case (operand : Option Nested) (branches : List (Nested × Nested)) (otherwise : Option Nested)
  | Cast (operand : Nested) (data_type : Ident)
  | Array (elements : List Nested)
  | ArraySubquery (query : Query)
  | Lambda (params : List Token) (body : Nested)
  | Position (substr string : Expr)
  | PositionIn (substr : Expr) (string : Nested)
  | MatchAgainst (columns : List Ident) (against : Expr)
  | XmlExists (path arg : Nested)
  | JsonObject (members : List (Nested × Nested))
  | UnaryOp (op : Prefix) (operand : Expr)
  | Infix (left : Expr) (op : Binary) (right : Expr)
  | Mixfix (left : Expr) (op : Binary) (middle right : Expr)
  | LikeQuantified (left : Expr) (op : Binary) (pattern : Nested)
  | Postfix (operand : Expr) (op : Suffix) (inside : List Nested)
  | PostfixQuery (operand : Expr) (op : Suffix) (query : Query)

/-- An expression between delimiters, with whether it was read under the restriction. -/
inductive Nested
  | mk (restricted : Bool) (expr : Expr)

inductive Query
  | mk (projection : List Nested) (tables : List TableFactor) (selection limit : Option Nested)

inductive TableFactor
  | Table (name : Token) (version : List Nested)
  | Derived (subquery : Query)

end

structure ParsedExpr where
  expr : Expr
  grouped : Bool

def Expr.is_column : Expr → Bool
  | .Atom (.Column _) => true
  | _ => false

def Nested.is_column : Nested → Bool
  | .mk _ e => e.is_column

/-- The node on top of an expression. -/
def node (features : FeatureSet) : Expr → Node
  | .Atom (.Column _) => .Column 1
  | .Group (.mk _ e) => node features e
  | .Row fields => .Row fields.length (fields.all Nested.is_column)
  | .Case _ _ _ => .Case
  | .Lambda _ _ => .Lambda
  | .UnaryOp (.unary _) _ => .UnaryOp
  | .UnaryOp (.symbol _) _ => .PrefixOperator
  | .Infix l op _ | .Mixfix l op _ _ | .LikeQuantified l op _ => op.node features (node features l)
  | .Postfix _ op _ | .PostfixQuery _ op _ => op.node
  | _ => .Primary

/-! ## Productions -/

inductive Proc
  | parse_expr
  /-- The entry of `b_expr` and of MySQL's `bit_expr`, which is above the comparisons. -/
  | parse_restricted (floor : Nat)
  | parse_expr_bp_inner (min_bp : Nat)
  | parse_prefix
  | operand_ahead
  | parse_query_inner (grouping : Bool)
  | try_parenthesized_query
  | parse_array_row
  | parse_keyword_lambda
  /-- An expression between delimiters that is read under the flag as it stands. -/
  | nested_bp (min_bp : Nat)
  /-- An operand between delimiters that is read under the flag as it stands. -/
  | nested_prefix
  | json_key_ahead
  | no_json_member_ahead
  | parse_limit_operand
  | parse_percent_symbol_count
  deriving DecidableEq

abbrev Proc.Ret : Proc → Type
  | parse_expr | parse_limit_operand | parse_percent_symbol_count => Nested
  | nested_bp _ | nested_prefix => Nested
  | parse_restricted _ | parse_expr_bp_inner _ | parse_array_row | parse_keyword_lambda => Expr
  | parse_prefix => ParsedExpr
  | parse_query_inner _ | try_parenthesized_query => Query
  | operand_ahead | json_key_ahead | no_json_member_ahead => Unit

abbrev ParseResult := Method Proc.Ret

variable {α : Type}

def look (test : List Token → α) : ParseResult α := .step (.look test)

def invoke (entry : Entry) (p : Proc) : ParseResult (entry.Reply p.Ret) := Method.invoke entry p

def advance : ParseResult Unit := .step .advance

/-- Advance over the tokens that a lookahead has told the meaning of. -/
def advance_over : Nat → ParseResult Unit
  | 0 => return ()
  | n + 1 => do
    advance
    advance_over n

def unexpected (expected : String) : ParseResult α := .act (.unexpected expected) Empty.elim

def ensure (holds : Bool) (expected : String) : ParseResult Unit :=
  if holds then return () else unexpected expected

def restrict_b_expr : ParseResult Bool := .step (.mode .RestrictBExpr)

def peek_is (token : Token) : ParseResult Bool := look fun ts => ts.head? == some token

def peek_nth_is (n : Nat) (token : Token) : ParseResult Bool := look fun ts => ts[n]? == some token

def eat (token : Token) : ParseResult Bool := do
  if ← peek_is token then
    advance
    return true
  else
    return false

def expect (token : Token) (expected : String) : ParseResult Unit := do
  ensure (← eat token) expected

def is_word (word : String) : Token → Bool
  | .word text => text.map Char.toLower == word.toList
  | _ => false

def peek_is_word (word : String) : ParseResult Bool := look fun ts => ts.head?.any (is_word word)

def eat_word (word : String) : ParseResult Bool := do
  if ← peek_is_word word then
    advance
    return true
  else
    return false

def expect_word (word expected : String) : ParseResult Unit := do
  ensure (← eat_word word) expected

/-- Whether a word with an opening parenthesis behind it stands first. -/
def peek_opens (word : String) : ParseResult Bool :=
  look fun ts => ts.head?.any (is_word word) && ts[1]? == some .lparen

/-- Read items until `more` says that there is none. Each takes a token, so the tokens before the
next `;` bound them. -/
def many_tail (more : ParseResult Bool) (item : ParseResult α) : Nat → ParseResult (List α)
  | 0 => return []
  | turns + 1 => do
    if ← more then
      let head ← item
      let tail ← many_tail more item turns
      return head :: tail
    else
      return []

def parse_comma_separated (item : ParseResult α) : ParseResult (List α) := do
  let head ← item
  let tail ← many_tail (eat .comma) item (← look List.length)
  return head :: tail

def parse_optional (present : ParseResult Bool) (item : ParseResult α) :
    ParseResult (Option α) := do
  if ← present then
    return some (← item)
  else
    return none

/-- Items up to a delimiter, which may be none. -/
def parse_until (closing : Token) (item : ParseResult α) : ParseResult (List α) := do
  if ← peek_is closing then
    return []
  else
    parse_comma_separated item

def parse_ident : ParseResult Token := do
  match ← look List.head? with
  | some (.word name) =>
    advance
    return .word name
  | some (.quoted_ident name) =>
    advance
    return .quoted_ident name
  | _ => unexpected "an identifier"

/-- A name, which may be a keyword. -/
def parse_as_alias_ident : ParseResult Token := do
  match ← look List.head? with
  | some (.keyword name) =>
    advance
    return .keyword name
  | _ => parse_ident

/-! ## Entries -/

/-- The entry of expressions, which clears the flags of the expression around. -/
def parse_expr : ParseResult Nested :=
  invoke (.set [(.RestrictBExpr, false), (.SuppressValueStar, false)]) .parse_expr

def parse_projection_target_expr : ParseResult Nested :=
  invoke (.set [(.RestrictBExpr, false), (.SuppressValueStar, true)]) .parse_expr

def parse_b_expr : ParseResult Expr :=
  invoke (.set [(.RestrictBExpr, true)]) (.parse_restricted 0)

def parse_bit_expr (features : FeatureSet) : ParseResult Expr :=
  invoke (.set [(.RestrictBExpr, true)])
    (.parse_restricted (features.binding_powers.comparison.left + 1))

def parse_expr_bp (min_bp : Nat) : ParseResult Expr := invoke .guarded (.parse_expr_bp_inner min_bp)

def parse_prefix : ParseResult ParsedExpr := invoke .plain Proc.parse_prefix

def parse_query (grouping : Bool) : ParseResult Query :=
  .query grouping Proc.parse_query_inner fun _ => Method.pure

def nested_bp (min_bp : Nat) : ParseResult Nested := invoke .plain (.nested_bp min_bp)

def nested_bp_body (min_bp : Nat) : ParseResult Nested := do
  let restricted ← restrict_b_expr
  let e ← parse_expr_bp min_bp
  return .mk restricted e

def nested_prefix : ParseResult Nested := invoke .plain Proc.nested_prefix

def nested_prefix_body : ParseResult Nested := do
  let restricted ← restrict_b_expr
  let parsed ← parse_prefix
  return .mk restricted parsed.expr

def peek_starts_query : ParseResult Bool := peek_is (.keyword .Select)

def parse_query_in_parens (expected closing : String) : ParseResult Query := do
  expect .lparen expected
  let query ← parse_query false
  expect .rparen closing
  return query

/-- A query behind a parenthesis that is read, with parentheses of its own where `nested` says so. -/
def parse_query_behind_paren (nested : Bool) (closing : String) :
    ParseResult (Option Query) := do
  if ← peek_starts_query then
    let query ← parse_query false
    expect .rparen closing
    return some query
  else if nested && (← peek_is .lparen) then
    invoke (.attempt false) .try_parenthesized_query
  else
    return none

section Expressions

variable (features : FeatureSet) (forms : FormSyntax)

/-! ## Operands -/

def parse_grouped : ParseResult ParsedExpr := do
  advance
  match ← parse_query_behind_paren true "`)` to close the subquery" with
  | some query => return ⟨.Subquery query, false⟩
  | none =>
    let inner ← parse_expr
    if forms.row_constructor && (← peek_is .comma) then
      let fields ← many_tail (eat .comma) parse_expr (← look List.length)
      expect .rparen "`)` to close the row constructor"
      return ⟨.Row (inner :: fields), false⟩
    else
      expect .rparen "`)`"
      return ⟨.Group inner, true⟩

def parse_when_clause : ParseResult (Nested × Nested) := do
  advance
  let condition ← parse_expr
  expect_word "then" "`THEN`"
  let result ← parse_expr
  return (condition, result)

def parse_case : ParseResult Expr := do
  advance
  let operand ← parse_optional (do return !(← peek_is_word "when")) parse_expr
  let branches ← many_tail (peek_is_word "when") parse_when_clause (← look List.length)
  ensure (!branches.isEmpty) "`WHEN` after `CASE`"
  let otherwise ← parse_optional (eat_word "else") parse_expr
  expect_word "end" "`END`"
  return .Case operand branches otherwise

def parse_cast : ParseResult Expr := do
  advance
  expect .lparen "`(` after the cast keyword"
  let operand ← parse_expr
  expect (.keyword .As) "`AS`"
  match ← look fun ts => ts.head?.bind (expr.column_name features) with
  | none => unexpected "a data type"
  | some data_type =>
    advance
    expect .rparen "`)` to close the cast"
    return .Cast operand data_type

def parse_exists : ParseResult Expr := do
  advance
  let query ← parse_query_in_parens "`(` after `EXISTS`" "`)` to close the `EXISTS` subquery"
  return .Exists query

/-- The elements between the brackets of an array: rows, where the first of them is one. -/
def parse_array_multidim_elements : ParseResult (List Nested) := do
  if ← peek_is (.punctuation .LBracket) then
    parse_comma_separated do
      let row ← invoke .plain .parse_array_row
      return .mk false row
  else
    parse_until (.punctuation .RBracket) parse_expr

def parse_array_row_body : ParseResult Expr := do
  expect (.punctuation .LBracket) "`[` to open a nested array row"
  let elements ← parse_array_multidim_elements
  expect (.punctuation .RBracket) "`]` to close the array row"
  return .Array elements

def parse_list (closing : String) : ParseResult Expr := do
  let elements ← parse_until (.punctuation .RBracket) parse_expr
  expect (.punctuation .RBracket) closing
  return .Array elements

def parse_array : ParseResult Expr := do
  advance
  if ← peek_is (.punctuation .LBracket) then
    if features.expression_syntax.multidim_array_literals then
      parse_array_row_body
    else
      advance
      parse_list "`]` to close the array constructor"
  else
    let query ← parse_query_in_parens "`[` or `(` after `ARRAY`" "`)` to close the array subquery"
    return .ArraySubquery query

/-- The arguments of a call, from its parenthesis on. -/
def parse_function_args : ParseResult (List Nested) := do
  advance
  let args ← parse_until .rparen parse_expr
  expect .rparen "`)` to close the function call"
  return args

def parse_keyword_lambda : ParseResult Expr := invoke .plain .parse_keyword_lambda

/-- The body is read by the entry of expressions. -/
def parse_keyword_lambda_body : ParseResult Expr := do
  advance
  let params ← parse_comma_separated parse_ident
  expect (.punctuation .Colon) "`:` after the lambda parameters"
  let body ← parse_expr
  return .Lambda params body

def parse_position_expr : ParseResult Expr := do
  advance
  expect .lparen "`(` after `POSITION`"
  if forms.position_asymmetric_operands then
    let substr ← parse_bit_expr features
    expect (.keyword .In) "`IN`"
    let string ← parse_expr
    expect .rparen "`)` to close `POSITION`"
    return .PositionIn substr string
  else
    let substr ← parse_b_expr
    expect (.keyword .In) "`IN`"
    let string ← parse_b_expr
    expect .rparen "`)` to close `POSITION`"
    return .Position substr string

def parse_match_column : ParseResult Ident := do
  match ← look fun ts => ts.head?.bind (expr.column_name features) with
  | some column =>
    advance
    return column
  | none => unexpected "a column"

def parse_match_against : ParseResult Expr := do
  advance
  expect .lparen "`(` after `MATCH`"
  let columns ← parse_comma_separated (parse_match_column features)
  expect .rparen "`)` to close the `MATCH` column list"
  expect_word "against" "`AGAINST`"
  expect .lparen "`(` after `AGAINST`"
  let against ← parse_bit_expr features
  expect .rparen "`)` to close `AGAINST`"
  return .MatchAgainst columns against

/-- `BY REF` or `BY VALUE`. -/
def parse_xml_passing_mechanism : ParseResult Unit := do
  if ← eat (.keyword .By) then
    if ← peek_is_word "ref" then
      advance
    else
      expect (.keyword .Value) "`REF` or `VALUE` after `BY`"

/-- Path and document are read without the climb. -/
def parse_xml_exists : ParseResult Expr := do
  advance
  expect .lparen "`(` after `xmlexists`"
  let path ← nested_prefix
  expect_word "passing" "`PASSING`"
  parse_xml_passing_mechanism
  let arg ← nested_prefix
  parse_xml_passing_mechanism
  expect .rparen "`)` to close `xmlexists`"
  return .XmlExists path arg

/-- The `KEY` in front of a member, unless it is a column. -/
def eat_json_key : ParseResult Unit := do
  if (← peek_is (.keyword .Key)) && !(← peek_nth_is 1 .comma) && !(← peek_nth_is 1 .rparen) then
    advance

/-- The key behind which the value of a member follows is an operand, or else an expression. -/
def try_parse_json_member : ParseResult (Option (Nested × Nested)) := do
  eat_json_key
  if ← invoke .probe .json_key_ahead then
    let key ← nested_prefix
    advance
    let value ← parse_expr
    return some (key, value)
  else if ← invoke .probe Proc.parse_prefix then
    let key ← parse_expr
    if ← eat (.punctuation .Colon) then
      let value ← parse_expr
      return some (key, value)
    else
      return none
  else
    discard parse_prefix
    unexpected "an expression"

def parse_json_member_required : ParseResult (Nested × Nested) := do
  match ← try_parse_json_member with
  | some member => return member
  | none => unexpected "a SQL/JSON object member (`key : value` or `key VALUE value`)"

/-- The members, or an ordinary call where the first of them is none. -/
def parse_json_object (name : Token) : ParseResult Expr := do
  advance
  if ← peek_nth_is 1 .rparen then
    advance_over 2
    return .JsonObject []
  else if ← invoke .probe .no_json_member_ahead then
    return .Function name (← parse_function_args)
  else
    expect .lparen "`(` after `JSON_OBJECT`"
    let members ← parse_comma_separated parse_json_member_required
    expect .rparen "`)` to close `JSON_OBJECT`"
    return .JsonObject members

/-- An operand that starts with the word `name`: a form of its own, or a call. -/
def parse_word_form (name : Token) : ParseResult (Option Expr) := do
  if ← peek_is_word "case" then
    return some (← parse_case)
  else if ← peek_opens "cast" then
    return some (← parse_cast features)
  else if ← peek_opens "exists" then
    return some (← parse_exists)
  else if forms.position_in && (← peek_opens "position") then
    return some (← parse_position_expr features forms)
  else if features.call_syntax.xml_expression_functions && (← peek_opens "xmlexists") then
    return some (← parse_xml_exists)
  else if features.call_syntax.sqljson_expression_functions && (← peek_opens "json_object") then
    return some (← parse_json_object name)
  else if (expr.column_name features name).isSome && (← peek_nth_is 1 .lparen) then
    advance
    return some (.Function name (← parse_function_args))
  else
    return none

/-- A form with a keyword in front of it. -/
def parse_keyword_form : ParseResult (Option Expr) := do
  if forms.lambda_keyword && (← peek_is (.keyword .Lambda)) then
    return some (← parse_keyword_lambda)
  else if forms.match_against && (← peek_is (.keyword .Match)) && (← peek_nth_is 1 .lparen) then
    return some (← parse_match_against features)
  else if features.expression_syntax.array_constructor && (← peek_is (.keyword .Array)) &&
      ((← peek_nth_is 1 (.punctuation .LBracket)) || (← peek_nth_is 1 .lparen)) then
    return some (← parse_array features)
  else if forms.row_constructor && (← peek_is (.keyword .Row)) && (← peek_nth_is 1 .lparen) then
    advance
    return some (.Row (← parse_function_args))
  else if features.expression_syntax.collection_literals &&
      (← peek_is (.punctuation .LBracket)) then
    advance
    return some (← parse_list "`]` to close the list literal")
  else
    return none

/-- A literal or a column. -/
def parse_atom : ParseResult Expr := do
  match ← look fun ts => (expr.parse_word_or_literal features ts).map Prod.fst with
  | some e =>
    advance
    return .Atom e
  | none => unexpected "an expression"

/-- A form, a call, a literal or a column. -/
def parse_primary : ParseResult Expr := do
  match ← parse_keyword_form features forms with
  | some e => return e
  | none =>
    match ← look List.head? with
    | none => parse_atom features
    | some name =>
      match ← parse_word_form features forms name with
      | some e => return e
      | none => parse_atom features

def parse_prefix_body : ParseResult ParsedExpr := do
  if ← peek_is .lparen then
    parse_grouped forms
  else
    match ← look fun ts => ts.head?.bind (prefix_operator features) with
    | none => return ⟨← parse_primary features forms, false⟩
    | some op =>
      let restricted ← restrict_b_expr
      ensure (!(restricted && op == .unary .Not)) "an expression"
      advance
      let operand ← parse_expr_bp (op.power features)
      return ⟨.UnaryOp op operand, false⟩

/-! ## Operators -/

/-- A bound of a slice, or none where the next delimiter follows. -/
def parse_subscript_bound : ParseResult (Option Nested) := do
  if (← peek_is (.punctuation .Colon)) || (← peek_is (.punctuation .RBracket)) then
    return none
  else
    return some (← parse_expr)

/-- The upper bound of a slice, where a `-` in front of a second colon stands for none. -/
def parse_subscript_upper : ParseResult (Option Nested) := do
  if forms.slice_step && (← peek_is (.operator .Minus)) &&
      (← peek_nth_is 1 (.punctuation .Colon)) then
    advance
    return none
  else
    parse_subscript_bound

/-- The bounds between the brackets: an index, or a slice of two or three bounds. -/
def parse_subscript_bounds : ParseResult (List Nested) := do
  let lower ← parse_subscript_bound
  if ← eat (.punctuation .Colon) then
    let dash ← look fun ts => ts.head? == some (.operator .Minus)
    let upper ← parse_subscript_upper forms
    if forms.slice_step && (← eat (.punctuation .Colon)) then
      ensure (upper.isSome || dash) "a slice upper bound or `-` before the step"
      let step ← parse_subscript_bound
      return lower.toList ++ upper.toList ++ step.toList
    else
      return lower.toList ++ upper.toList
  else if lower.isNone then
    unexpected "an array subscript index"
  else
    return lower.toList

def parse_subscript (lhs : Expr) : ParseResult Expr := do
  advance
  let bounds ← parse_subscript_bounds forms
  expect (.punctuation .RBracket) "`]` to close the subscript"
  return .Postfix lhs (.access .Subscript) bounds

def parse_subscripts : Nat → Expr → ParseResult Expr
  | 0, lhs => return lhs
  | turns + 1, lhs => do
    if features.expression_syntax.subscript && (← peek_is (.punctuation .LBracket)) then
      parse_subscripts turns (← parse_subscript forms lhs)
    else
      return lhs

def parse_in_expr_rhs : ParseResult Expr := do
  let parsed ← parse_prefix
  parse_subscripts features forms (← look List.length) parsed.expr

/-- The keys and indices behind a colon. -/
def parse_semi_structured_path : Nat → ParseResult (List Nested)
  | 0 => return []
  | turns + 1 => do
    if (← peek_is (.punctuation .Dot)) && (← look fun ts => ts[1]?.any expr.token_can_be_label) then
      advance
      discard parse_as_alias_ident
      parse_semi_structured_path turns
    else if ← eat (.punctuation .LBracket) then
      let index ← parse_expr
      expect (.punctuation .RBracket) "`]` to close the semi-structured path index"
      let path ← parse_semi_structured_path turns
      return index :: path
    else
      return []

def parse_field_selection (lhs : Expr) : ParseResult Expr := do
  advance
  let field ← parse_as_alias_ident
  if forms.method_chaining && (← peek_is .lparen) then
    return .MethodCall lhs field (← parse_function_args)
  else
    return .Postfix lhs (.access .FieldSelection) []

def parse_postfix (lhs : Expr) (op : PostfixOp) : ParseResult Expr := do
  match op with
  | .Typecast =>
    advance
    match ← look fun ts => ts.head?.bind (expr.column_name features) with
    | none => unexpected "a data type"
    | some _ =>
      advance
      return .Postfix lhs (.access .Typecast) []
  | .Subscript => parse_subscript forms lhs
  | .SemiStructuredAccess =>
    advance
    discard parse_as_alias_ident
    let path ← parse_semi_structured_path (← look List.length)
    return .Postfix lhs (.access .SemiStructuredAccess) path
  | .Collate =>
    advance
    match ← look fun ts => ts.head?.bind (expr.column_name features) with
    | none => unexpected "a collation"
    | some collation =>
      advance
      return .Postfix lhs (.known (.collate collation)) []
  | .AtTimeZone =>
    advance_over 3
    let zone ← parse_expr_bp features.binding_powers.at_time_zone.right
    return .Infix lhs (.known .at_time_zone) zone
  | .FieldSelection => parse_field_selection forms lhs
  | .FieldWildcard =>
    advance_over 2
    return .Postfix lhs (.access .FieldWildcard) []

/-- A quantified pattern is an expression in parentheses of its own. -/
def parse_like_quantified (lhs : Expr) (o : Binary) : ParseResult Expr := do
  expect .lparen "`(` after `ANY`, `ALL`, or `SOME`"
  let pattern ← parse_expr
  expect .rparen "`)` to close the quantified pattern-match operand"
  return .LikeQuantified lhs o pattern

def parse_between (lhs : Expr) (o : Binary) : ParseResult Expr := do
  let bound_bp := features.binding_powers.range_predicate.right
  let low ← parse_expr_bp bound_bp
  expect (.keyword .And) "`AND`"
  let high ← parse_expr_bp bound_bp
  return .Mixfix lhs o low high

def parse_like (lhs : Expr) (o : Binary) : ParseResult Expr := do
  let pattern_bp := features.binding_powers.range_predicate.right
  let pattern ← parse_expr_bp pattern_bp
  if ← eat (.keyword .Escape) then
    let escape ← parse_expr_bp pattern_bp
    return .Mixfix lhs o pattern escape
  else
    return .Infix lhs o pattern

def parse_overlaps (lhs : Expr) (grouped : Bool) : ParseResult Expr := do
  ensure (!grouped && expr.chain.is_two_element_row (node features lhs))
    "a two-element row `(a, b)` or `ROW(a, b)` before `OVERLAPS`"
  advance
  let right ← parse_prefix
  ensure (!right.grouped && expr.chain.is_two_element_row (node features right.expr))
    "a two-element row `(a, b)` or `ROW(a, b)` after `OVERLAPS`"
  return .Infix lhs .overlaps right.expr

/-- The right operands of an operator, behind the tokens that name it. -/
def parse_binary (lhs : Expr) (o : Binary) : ParseResult Expr := do
  match o with
  | .known (.between _ _) => parse_between features lhs o
  | .known (.like _ _) => parse_like features lhs o
  | .known o' =>
    let right ← parse_expr_bp (expr.right_power features o')
    return .Infix lhs o right
  | .like_quantified _ _ _ => parse_like_quantified lhs o
  | .in_expr _ =>
    let right ← parse_in_expr_rhs features forms
    return .Infix lhs o right
  | .overlaps | .custom _ => unexpected "an operand"

/-- A list in parentheses behind `IN`. -/
def parse_in_list : ParseResult (List Nested) := do
  if features.predicate_syntax.empty_in_list then
    parse_until .rparen parse_expr
  else
    parse_comma_separated parse_expr

def parse_in (lhs : Expr) : ParseResult Expr := do
  let negated ← eat (.keyword .Not)
  advance
  expect .lparen "`(` after `IN`"
  match ← parse_query_behind_paren true "`)` to close the `IN` subquery" with
  | some query => return .PostfixQuery lhs (.in_subquery negated) query
  | none =>
    let list ← parse_in_list features
    expect .rparen "`)` to close the `IN` list"
    return .Postfix lhs (.in_list negated) list

/-- What the tokens behind a left operand say of a predicate: `OVERLAPS`, a membership test in
parentheses, or an operator with the number of tokens that name it. -/
inductive PredicateForm
  | overlaps
  | membership
  | operator (op : Binary ⊕ Suffix) (width : Nat)
  | unknown

def predicate_form (ts : List Token) : PredicateForm :=
  if expr.peek_overlaps features ts then .overlaps
  else if expr.peek_is_keyword .In (expr.eat_keyword .Not ts).2 then .membership
  else
    match expr.chain.parse_predicate_head features ts with
    | some (op, rest) => .operator op (ts.length - rest.length)
    | none => .unknown

def parse_predicate (lhs : Expr) (grouped : Bool) : PredicateForm → ParseResult Expr
  | .overlaps => parse_overlaps features lhs grouped
  | .membership => parse_in features lhs
  | .operator (.inl o) width => do
    advance_over width
    parse_binary features forms lhs o
  | .operator (.inr q) width => do
    advance_over width
    return .Postfix lhs q []
  | .unknown => unexpected "a predicate"

def parse_quantified_operator_tail (lhs : Expr) (op : BinaryOperator) (quantifier : Quantifier) :
    ParseResult Expr := do
  expect .lparen "`(` after `ANY`, `ALL`, or `SOME`"
  match ← parse_query_behind_paren features.select_syntax.parenthesized_query_operands
      "`)` to close the quantified subquery" with
  | some query => return .PostfixQuery lhs (.quantified_subquery op quantifier) query
  | none =>
    ensure features.operator_syntax.quantified_comparison_lists "a subquery"
    let array ← parse_expr
    expect .rparen "`)` to close the quantified list operand"
    return .Postfix lhs (.quantified_list op quantifier) [array]

/-- The quantifier behind an operator that has one there. Under the restriction none has. -/
def peek_quantifier (lhs : Expr) (op : BinaryOperator) : ParseResult (Option Quantifier) := do
  let lambda := op == .JsonGet && features.operator_syntax.lambda_expressions &&
    expr.chain.lambda_params (node features lhs)
  if !lambda && expr.is_quantifiable_operator features op && !(← restrict_b_expr) then
    look fun ts => (expr.chain.parse_quantifier features ts).map Prod.fst
  else
    return none

/-- An infix operator of meaning `op` behind `lhs`, with its right operand. -/
def fold_infix (lhs : Expr) (o : expr.Infix) (op : BinaryOperator) : ParseResult Expr := do
  advance
  match ← peek_quantifier features lhs op with
  | some quantifier =>
    advance
    parse_quantified_operator_tail features lhs op quantifier
  | none =>
    let right ← parse_expr_bp (features.binding_power op).right
    return .Infix lhs (.known o) right

def reject_nonassoc_chain (lhs : Expr) (grouped : Bool) (bp : BindingPower) (expected : String) :
    ParseResult Unit :=
  ensure (!(bp.assoc == .NonAssoc && !grouped &&
    expr.chain.lhs_chains_nonassoc features (node features lhs) bp.left)) expected

/-- Whether an operand starts behind the operator at the front. -/
def peek_operand_follows_operator : ParseResult Bool := do
  match ← look fun ts => ts[1]? with
  | some (.word _) | some (.quoted_ident _) | some (.number _) | some (.string _)
  | some (.parameter _) | some .lparen => return true
  | _ => invoke .probe .operand_ahead

def peek_postfix_symbolic_operator (min_bp : Nat) : ParseResult (Option Operator) := do
  let allowed := features.operator_syntax.postfix_operators &&
    min_bp ≤ features.binding_powers.any_operator.left
  match ← look List.head? with
  | some (.operator op) =>
    if allowed && expr.is_postfix_symbolic_operator op then
      if ← peek_operand_follows_operator then
        return none
      else
        return some op
    else
      return none
  | _ => return none

/-- The explicit form at the front, with the number of tokens that name it. -/
def peek_operator_construct_head (ts : List Token) : Option (expr.Infix × Nat) :=
  (expr.parse_operator_construct_head features ts).map fun (o, rest) => (o, ts.length - rest.length)

/-- The infix operator at the front, with what it means. -/
def peek_infix_operator (ts : List Token) : Option (expr.Infix × BinaryOperator) :=
  (expr.peek_infix_operator features ts).bind fun o => o.means?.map (o, ·)

/-- Fold the operator of rank `left`, where its power allows. -/
def fold_at (left min_bp : Nat) (fold : ParseResult Expr) : ParseResult (Option Expr) := do
  if left < min_bp then
    return none
  else
    return some (← fold)

def parse_operator_construct (lhs : Expr) (right_bp : Nat) : ParseResult Expr := do
  match ← look (peek_operator_construct_head features) with
  | none => unexpected "an operator"
  | some (o, width) =>
    advance_over width
    let right ← parse_expr_bp right_bp
    return .Infix lhs (.known o) right

def parse_bare_infix_operator (lhs : Expr) (op : Operator) (right_bp : Nat) : ParseResult Expr := do
  advance
  let right ← parse_expr_bp right_bp
  return .Infix lhs (.known (.bare op)) right

/-- The explicit form, an operator without a meaning of its own, and at last one of the dialect's
infix operators. -/
def infix_turn (min_bp : Nat) (lhs : Expr) (grouped : Bool) : ParseResult (Option Expr) := do
  let powers := features.binding_powers
  if ← look (expr.peek_operator_construct features) then
    fold_at powers.string_concat.left min_bp
      (parse_operator_construct features lhs powers.string_concat.right)
  else
    match ← look (expr.peek_bare_infix_operator features) with
    | some op =>
      fold_at powers.any_operator.left min_bp
        (parse_bare_infix_operator lhs op powers.any_operator.right)
    | none =>
      match ← look (peek_infix_operator features) with
      | none => return none
      | some (o, op) =>
        if (← restrict_b_expr) && (op == .And || op == .Or) then
          return none
        else
          let bp := features.binding_power op
          fold_at bp.left min_bp do
            reject_nonassoc_chain features lhs grouped bp "the end of the comparison"
            fold_infix features lhs o op

/-- A postfix operator that binds at least as tightly as `min_bp`. -/
def peek_postfix_operator (min_bp : Nat) : ParseResult (Option PostfixOp) := do
  let suppressed ← .step (.mode .SuppressValueStar)
  look fun ts => (expr.peek_postfix_operator features ts).filter fun op =>
    min_bp ≤ (op.binding_power features.binding_powers).left &&
      !(op == .FieldWildcard && suppressed)

def fold_postfix (lhs : Expr) (grouped : Bool) (op : PostfixOp) : ParseResult (Option Expr) := do
  if (← restrict_b_expr) && op == .AtTimeZone then
    return none
  else
    ensure (!(op == .Subscript && !grouped && node features lhs == .Case))
      "`(` around the `CASE` expression before subscripting it"
    return some (← parse_postfix features forms lhs op)

/-- The part of a turn that follows the predicates. -/
def operator_turn (min_bp : Nat) (lhs : Expr) (grouped : Bool) : ParseResult (Option Expr) := do
  match ← peek_postfix_operator features min_bp with
  | some op => fold_postfix features forms lhs grouped op
  | none =>
    match ← peek_postfix_symbolic_operator features min_bp with
    | some op =>
      advance
      return some (.Postfix lhs (.known (.symbol op)) [])
    | none => infix_turn features min_bp lhs grouped

def parse_unparenthesized_in_list (lhs : Expr) : ParseResult Expr := do
  let negated ← eat (.keyword .Not)
  advance
  parse_binary features forms lhs (.in_expr negated)

/-- The predicate at the front, if there is one: whether `b_expr` has it, and its rank. -/
def predicate_ahead (ts : List Token) : Option (Bool × BindingPower × PredicateForm) :=
  if expr.peek_starts_predicate features ts then
    some (expr.chain.peek_starts_is_distinct_predicate ts, expr.predicate_binding_power features ts,
      predicate_form features ts)
  else none

/-- One turn of the climb: the operator behind `lhs` is folded onto it, or ends the climb. -/
def climb_turn (min_bp : Nat) (lhs : Expr) (grouped : Bool) : ParseResult (Option Expr) := do
  if ← look (expr.peek_unparenthesized_in_list features) then
    if ← restrict_b_expr then
      return none
    else
      fold_at UNPARENTHESIZED_IN_LIST.left min_bp (parse_unparenthesized_in_list features forms lhs)
  else
    match ← look (predicate_ahead features) with
    | some (distinct, bp, form) =>
      if (← restrict_b_expr) && !distinct then
        return none
      else
        fold_at bp.left min_bp do
          reject_nonassoc_chain features lhs grouped bp "the end of the comparison"
          parse_predicate features forms lhs grouped form
    | none => operator_turn features forms min_bp lhs grouped

/-- The turns of the climb. Each takes a token, so the tokens before the next `;` bound them. -/
def climb_loop (min_bp : Nat) : Nat → Expr → Bool → ParseResult Expr
  | 0, lhs, _ => return lhs
  | turns + 1, lhs, grouped => do
    match ← climb_turn features forms min_bp lhs grouped with
    | none => return lhs
    | some lhs => climb_loop min_bp turns lhs false

def parse_expr_bp_inner_body (min_bp : Nat) : ParseResult Expr := do
  let parsed ← parse_prefix
  climb_loop features forms min_bp (← look List.length) parsed.expr parsed.grouped

end Expressions

/-! ## Queries -/

section Queries

variable (features : FeatureSet) (forms : FormSyntax)

/-- What stands behind a `FOR SYSTEM_TIME` at the front. -/
def peek_system_time : List Token → Option (Option Token)
  | .keyword .For :: t :: ts => if is_word "system_time" t then some ts.head? else none
  | _ => none

/-- The endpoints behind `FOR SYSTEM_TIME`. Those in front of a delimiter are read at the power of a
range, under the flag as it stands. -/
def parse_for_system_time_tail (next : Option Token) : ParseResult (List Nested) := do
  let bound_bp := features.binding_powers.range_predicate.right
  advance
  match next with
  | some (.keyword .As) =>
    expect (.keyword .Of) "`OF`"
    let point ← parse_expr
    return [point]
  | some (.keyword .From) =>
    let start ← nested_bp bound_bp
    expect (.keyword .To) "`TO`"
    let stop ← parse_expr
    return [start, stop]
  | some (.keyword .Between) =>
    let start ← nested_bp bound_bp
    expect (.keyword .And) "`AND`"
    let stop ← nested_bp bound_bp
    return [start, stop]
  | some (.keyword .All) => return []
  | _ => unexpected "`AS OF`, `FROM`, `BETWEEN`, or `ALL` after `FOR SYSTEM_TIME`"

/-- What `FOR SYSTEM_TIME` is followed by behind a table, where the dialect has versions. -/
def peek_table_version : ParseResult (Option (Option Token)) := do
  if forms.table_version then
    look peek_system_time
  else
    return none

def parse_table_factor : ParseResult TableFactor := do
  if ← peek_is .lparen then
    let subquery ← parse_query_in_parens "`(`" "`)` to close the subquery"
    return .Derived subquery
  else
    let name ← parse_ident
    match ← peek_table_version forms with
    | none => return .Table name []
    | some next =>
      advance_over 2
      let version ← parse_for_system_time_tail features next
      return .Table name version

def parse_from : ParseResult (List TableFactor) := do
  if ← eat (.keyword .From) then
    parse_comma_separated (parse_table_factor features forms)
  else
    return []

def parse_limit_operand : ParseResult Nested := invoke .plain .parse_limit_operand

/-- The count of a `LIMIT`, where an operand in front of a `%` is read under the flag as it
stands. -/
def parse_limit_count : ParseResult Nested := do
  if features.query_tail_syntax.limit_percent then
    match ← invoke (.attempt true) .parse_limit_operand with
    | some count => return count
    | none =>
      match ← invoke (.attempt true) .parse_percent_symbol_count with
      | some count => return count
      | none => parse_limit_operand
  else
    parse_limit_operand

def parse_percent_symbol_count_body : ParseResult Nested := do
  let count ← nested_bp features.binding_powers.multiplicative.right
  expect (.operator .Percent) "`%`"
  return count

def parse_query_inner_body : ParseResult Query := do
  expect (.keyword .Select) "`SELECT`"
  let projection ← parse_comma_separated parse_projection_target_expr
  let tables ← parse_from features forms
  let selection ← parse_optional (eat_word "where") parse_expr
  let limit ← parse_optional (eat (.keyword .Limit)) (parse_limit_count features)
  return .mk projection tables selection limit

end Queries

/-- The grammar of expressions of a dialect. -/
def grammar (features : FeatureSet) (forms : FormSyntax) : method.Grammar where
  Proc := Proc
  Ret := Proc.Ret
  body
    | .parse_expr => nested_bp_body 0
    | .parse_restricted floor => parse_expr_bp floor
    | .parse_expr_bp_inner min_bp => parse_expr_bp_inner_body features forms min_bp
    | Proc.parse_prefix => parse_prefix_body features forms
    | .operand_ahead => do
      advance
      discard parse_prefix
    | .parse_query_inner _ => parse_query_inner_body features forms
    | .try_parenthesized_query => do
      let query ← parse_query true
      expect .rparen "`)`"
      return query
    | .parse_array_row => parse_array_row_body
    | .parse_keyword_lambda => parse_keyword_lambda_body
    | .nested_bp min_bp => nested_bp_body min_bp
    | Proc.nested_prefix => nested_prefix_body
    | .json_key_ahead => do
      discard parse_prefix
      ensure ((← peek_is (.keyword .Value)) || (← peek_is (.punctuation .Colon))) "`VALUE` or `:`"
    | .no_json_member_ahead => do
      expect .lparen "`(` after `JSON_OBJECT`"
      ensure (← try_parse_json_member).isNone "an argument"
    | .parse_limit_operand => parse_expr
    | .parse_percent_symbol_count => parse_percent_symbol_count_body features

end squonk.parser.restrict
