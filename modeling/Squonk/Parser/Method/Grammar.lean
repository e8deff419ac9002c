import Squonk.Parser.Expr.Core
import Squonk.Parser.Method.Language

/-!
# The grammar

Statements, queries, the expressions, tables and data types in them, and every call by which one
of them comes back to itself. A reader fails where the source would go on with what is not
modelled: predicates, postfix forms, calls, aliases, outer and natural joins, `USING`, `WITH`,
trailing commas, and statements other than queries, `SET` and `COPY`.
-/

open squonk.ast squonk.tokenizer squonk.dialect squonk.precedence
open squonk.parser.expr (Prefix prefix_operator parse_word_or_literal)

namespace squonk.parser.method

/-- The gates on data types that hold others. -/
structure TypeNameSyntax where
  composite_types : Bool
  angle_bracket_types : Bool
  nested_type : Bool
  nullable_type : Bool
  low_cardinality_type : Bool
  deriving DecidableEq

namespace TypeNameSyntax

def ANSI : TypeNameSyntax := ⟨false, false, false, false, false⟩

def BIGQUERY : TypeNameSyntax := { ANSI with angle_bracket_types := true }

def CLICKHOUSE : TypeNameSyntax :=
  { ANSI with nested_type := true, nullable_type := true, low_cardinality_type := true }

def DUCKDB : TypeNameSyntax := { ANSI with composite_types := true }

end TypeNameSyntax

/-! ## Trees -/

inductive StructTypeSpelling | Struct | Row | AngleBracket
  deriving DecidableEq

inductive WrappedTypeKind | Nullable | LowCardinality
  deriving DecidableEq

inductive DataType
  | Named (name : Token)
  | Array (element : DataType)
  | Struct (spelling : StructTypeSpelling) (fields : List (Token × DataType))
  | Union (members : List (Token × DataType))
  | Nested (fields : List (Token × DataType))
  | Map (key value : DataType)
  | Wrapped (kind : WrappedTypeKind) (inner : DataType)

mutual

inductive Expr
  | Atom (expr : ast.Expr)
  | UnaryOp (op : Prefix) (operand : Expr)
  | PostfixOperator (operand : Expr) (op : Operator)
  | NamedOperator (left : Expr) (op : Operator) (right : Expr)
  | BinaryOp (left : Expr) (op : BinaryOperator) (right : Expr)
  | Cast (operand : Expr) (data_type : DataType)
  | Array (elements : List Expr)
  | ArraySubquery (query : Query)
  | XmlExists (path arg : Expr)
  | JsonObject (entries : List (Expr × Expr))
  | Subquery (query : Query)

inductive GroupByItem
  | Expr (expr : Expr)
  | Rollup (exprs : List Expr)
  | Cube (exprs : List Expr)
  | GroupingSets (sets : List GroupByItem)
  | Empty

inductive SetExpr
  | Select (projection : List Expr) («from» : List TableWithJoins)
      (selection : Option Expr) (group_by : List GroupByItem) (having : Option Expr)
      (node_id : Nat)
  | Query (query : Query)
  | SetOperation (op : SetOperator) (all : Bool) (left right : SetExpr)

inductive Query
  | mk (body : SetExpr) (order_by : List Expr) (limit : Option Expr) (node_id : Nat)

inductive TableFactor
  | Table (name : Token)
  | Derived (subquery : Query)
  | NestedJoin (table : TableWithJoins)

inductive TableWithJoins
  | mk (relation : TableFactor) (joins : List Join)

inductive Join
  | Cross (relation : TableFactor)
  | Inner (relation : TableFactor) (constraint : Option Expr)

end

/-- A value of `SET`. -/
inductive SetParameterValue
  | Literal (sign : Option Operator) (literal : Token)
  | Name (name : Token)
  | List (values : List SetParameterValue)

/-- The value of an option of `COPY`. -/
inductive CopyOptionValue
  | Star
  | List (values : List CopyOptionValue)
  | Number (sign : Option Operator) (value : Token)
  | String (value : Token)
  | Word (word : Token)
  | OptionList (options : List (Token × CopyOptionValue))

inductive Statement
  | Query (query : Query)
  | Set (target : Token) (values : List SetParameterValue)
  | Copy (table target : Token) (options : List (Token × Option CopyOptionValue))
  | CopyQuery (source : Query) (target : Token)
      (options : List (Token × Option CopyOptionValue))
  | CopyInto (target source : Token) (options : List (Token × CopyOptionValue))

def Query.is_bare : Query → Bool
  | .mk _ [] none _ => true
  | _ => false

def Query.body : Query → SetExpr
  | .mk body _ _ _ => body

/-- A parenthesized join that holds no more than another one is that one. -/
def TableWithJoins.nested : TableWithJoins → Option TableFactor
  | .mk (.NestedJoin table) [] => some (.NestedJoin table)
  | .mk _ [] => none
  | table => some (.NestedJoin table)

structure ParsedExpr where
  expr : Expr
  grouped : Bool

/-! ## Productions -/

inductive Proc
  | parse_statement
  | parse_statement_inner
  | parse_query_inner (grouping : Bool)
  | parse_query_after_with (grouping : Bool)
  | parse_set_expr_bp (grouping : Bool) (min_bp : Nat)
  | parse_select
  | parse_table_with_joins
  | parse_table_factor
  | parse_parenthesized_table_factor_inner
  | parse_join_inner
  | parse_expr
  | parse_expr_bp_inner (min_bp : Nat)
  | parse_primary
  | operand_ahead
  | parse_grouped
  | try_parenthesized_query
  | parse_cast
  | parse_array_row
  | parse_xml_exists
  | parse_json_object
  | parse_group_by_item
  | parse_data_type
  | parse_set_parameter_value
  | parse_copy_generic_option_value
  | parse_copy_into_option_value
  deriving DecidableEq

/-- What a production returns. A set expression comes with the flag that it is a whole grouping,
which the source marks and takes without a failing step between. -/
abbrev Proc.Ret : Proc → Type
  | parse_statement | parse_statement_inner => Statement
  | parse_query_inner _ | try_parenthesized_query => Query
  | parse_query_after_with _ => SetExpr × List Expr × Option Expr
  | parse_set_expr_bp _ _ => SetExpr × Bool
  | parse_select =>
    List Expr × List TableWithJoins × Option Expr × List GroupByItem × Option Expr
  | parse_table_with_joins => TableWithJoins
  | parse_table_factor | parse_parenthesized_table_factor_inner => TableFactor
  | parse_join_inner => Option Join
  | parse_expr | parse_expr_bp_inner _ | parse_cast | parse_array_row | parse_xml_exists
  | parse_json_object => Expr
  | parse_primary | parse_grouped => ParsedExpr
  | operand_ahead => Unit
  | parse_group_by_item => GroupByItem
  | parse_data_type => DataType
  | parse_set_parameter_value => SetParameterValue
  | parse_copy_generic_option_value | parse_copy_into_option_value => CopyOptionValue

abbrev ParseResult := Method Proc.Ret

namespace ParseResult

variable {α : Type}

def look (test : List Token → α) : ParseResult α := .step (.look test)

def invoke (entry : Entry) (p : Proc) : ParseResult (entry.Reply p.Ret) := Method.invoke entry p

def advance : ParseResult Unit := .step .advance

def unexpected (expected : String) : ParseResult α := .act (.unexpected expected) Empty.elim

def peek_is (token : Token) : ParseResult Bool := look fun ts => ts.head? == some token

def peek_nth_is (n : Nat) (token : Token) : ParseResult Bool := look fun ts => ts[n]? == some token

def eat (token : Token) : ParseResult Bool := do
  if ← peek_is token then
    advance
    return true
  else
    return false

def eat_either (first second : Token) : ParseResult Bool := do
  if ← eat first then
    return true
  else
    eat second

def expect (token : Token) (expected : String) : ParseResult Unit := do
  unless ← eat token do
    unexpected expected

/-- A word that the tokens do not tell from a name. -/
def is_word (word : String) : Token → Bool
  | .word text => text.map Char.toLower == word.toList
  | _ => false

def peek_is_word (word : String) : ParseResult Bool := look fun ts => ts.head?.any (is_word word)

def expect_word (word expected : String) : ParseResult Unit := do
  unless ← peek_is_word word do
    unexpected expected
  advance

/-- Read items until `more` says that there is none. Each takes a token, so the tokens before the
next `;` bound them. -/
def many_tail (more : ParseResult Bool) (item : ParseResult α) : Nat → ParseResult (List α)
  | 0 => return []
  | turns + 1 => do
    if ← more then
      let head ← item
      let tail ← many_tail more item turns
      return head :: tail
    else
      return []

def parse_comma_separated (item : ParseResult α) : ParseResult (List α) := do
  let head ← item
  let tail ← many_tail (eat .comma) item (← look List.length)
  return head :: tail

def parse_query (grouping : Bool) : ParseResult Query :=
  .query grouping Proc.parse_query_inner fun _ => Method.pure

/-- The entry of expressions, which clears the flags of the expression around. -/
def parse_expr : ParseResult Expr :=
  invoke (.set [(.RestrictBExpr, false), (.SuppressValueStar, false)]) .parse_expr

def parse_projection_target_expr : ParseResult Expr :=
  invoke (.set [(.RestrictBExpr, false), (.SuppressValueStar, true)]) .parse_expr

def parse_expr_bp (min_bp : Nat) : ParseResult Expr :=
  invoke .guarded (.parse_expr_bp_inner min_bp)

/-! ## Data types -/

section Types

variable (types : TypeNameSyntax)

def parse_data_type : ParseResult DataType := invoke .plain .parse_data_type

def parse_ident : ParseResult Token := do
  match ← look fun ts => ts.head? with
  | some (.word name) =>
    advance
    return .word name
  | some (.quoted_ident name) =>
    advance
    return .quoted_ident name
  | _ => unexpected "an identifier"

def parse_struct_type_field : ParseResult (Token × DataType) := do
  let name ← parse_ident
  let data_type ← parse_data_type
  return (name, data_type)

def parse_struct_type_fields : ParseResult (List (Token × DataType)) := do
  expect .lparen "`(` to open the composite type fields"
  let fields ← parse_comma_separated parse_struct_type_field
  expect .rparen "`)` to close the composite type fields"
  return fields

def parse_map_type : ParseResult DataType := do
  expect .lparen "`(` to open the MAP key/value types"
  let key ← parse_data_type
  expect .comma "`,` between the MAP key and value types"
  let value ← parse_data_type
  expect .rparen "`)` to close the MAP type"
  return .Map key value

def try_parse_composite_type : ParseResult (Option DataType) := do
  if !(← peek_nth_is 1 .lparen) then
    return none
  if ← eat (.keyword .Struct) then
    return some (.Struct .Struct (← parse_struct_type_fields))
  if ← eat (.keyword .Row) then
    return some (.Struct .Row (← parse_struct_type_fields))
  if ← eat (.keyword .Union) then
    return some (.Union (← parse_struct_type_fields))
  if ← eat (.keyword .Map) then
    return some (← parse_map_type)
  return none

def expect_angle_gt (expected : String) : ParseResult Unit := .step (.expect_angle_gt expected)

def try_parse_angle_bracket_type : ParseResult (Option DataType) := do
  if (← peek_is (.keyword .Struct)) && (← peek_nth_is 1 (.operator .Lt)) then
    advance
    expect (.operator .Lt) "`<` to open STRUCT fields"
    let fields ← parse_comma_separated parse_struct_type_field
    expect_angle_gt "`>` to close STRUCT fields"
    return some (.Struct .AngleBracket fields)
  if (← peek_is (.keyword .Array)) && (← peek_nth_is 1 (.operator .Lt)) then
    advance
    expect (.operator .Lt) "`<` to open ARRAY element type"
    let element ← parse_data_type
    expect_angle_gt "`>` to close ARRAY element type"
    return some (.Array element)
  return none

def try_parse_nested_type : ParseResult (Option DataType) := do
  if !(← peek_nth_is 1 .lparen) then
    return none
  if !(← peek_is_word "nested") then
    return none
  advance
  return some (.Nested (← parse_struct_type_fields))

def parse_wrapped_type (kind : WrappedTypeKind) : ParseResult DataType := do
  expect .lparen "`(` to open the wrapped inner type"
  let inner ← parse_data_type
  expect .rparen "`)` to close the wrapped type"
  return .Wrapped kind inner

def try_parse_wrapped_type : ParseResult (Option DataType) := do
  if !(← peek_nth_is 1 .lparen) then
    return none
  if types.nullable_type && (← peek_is (.keyword .Nullable)) then
    advance
    return some (← parse_wrapped_type .Nullable)
  if types.low_cardinality_type && (← peek_is_word "lowcardinality") then
    advance
    return some (← parse_wrapped_type .LowCardinality)
  return none

/-- The next reader, where the gate of this one is off or it does not match. -/
def or_else (gate : Bool) (reader next : ParseResult (Option DataType)) :
    ParseResult (Option DataType) := do
  if gate then
    match ← reader with
    | some data_type => return some data_type
    | none => next
  else
    next

def try_parse_dialect_type_name : ParseResult (Option DataType) :=
  or_else types.composite_types try_parse_composite_type <|
  or_else types.angle_bracket_types try_parse_angle_bracket_type <|
  or_else types.nested_type try_parse_nested_type <|
  try_parse_wrapped_type types

/-- The `[]` behind a type. -/
def parse_array_suffixes : Nat → DataType → ParseResult DataType
  | 0, data_type => return data_type
  | turns + 1, data_type => do
    if ← eat (.punctuation .LBracket) then
      expect (.punctuation .RBracket) "`]` to close the array suffix"
      parse_array_suffixes turns (.Array data_type)
    else
      return data_type

/-- A built-in name, a form of the dialect, or the name of a user's type. -/
def parse_typed_data_type : ParseResult DataType := do
  let data_type ←
    if ← eat (.keyword .Int) then
      pure (.Named (.keyword .Int))
    else if ← eat (.keyword .Integer) then
      pure (.Named (.keyword .Integer))
    else do
      match ← try_parse_dialect_type_name types with
      | some data_type => pure data_type
      | none =>
        match ← look fun ts => ts.head? with
        | some (.word name) =>
          advance
          pure (.Named (.word name))
        | some (.quoted_ident name) =>
          advance
          pure (.Named (.quoted_ident name))
        | _ => unexpected "a data type"
  parse_array_suffixes (← look List.length) data_type

end Types

/-! ## Expressions -/

section Expressions

variable (features : FeatureSet)

/-- An operator that the readers here do not go on with. -/
def peek_unread_operator (ts : List Token) : Bool :=
  expr.peek_unparenthesized_in_list features ts || expr.peek_starts_predicate features ts ||
    (expr.peek_postfix_operator features ts).isSome || expr.peek_operator_construct features ts

def parse_primary : ParseResult ParsedExpr := invoke .plain .parse_primary

/-- Whether an operand starts behind the operator at the front. -/
def peek_operand_follows_operator : ParseResult Bool := do
  match ← look fun ts => ts[1]? with
  | some (.word _) | some (.quoted_ident _) | some (.number _) | some (.string _)
  | some (.parameter _) | some .lparen => return true
  | _ => invoke .probe .operand_ahead

def peek_postfix_symbolic_operator : ParseResult (Option Operator) := do
  match ← look fun ts => ts.head? with
  | some (.operator op) =>
    if expr.is_postfix_symbolic_operator op then
      if ← peek_operand_follows_operator then
        return none
      else
        return some op
    else
      return none
  | _ => return none

/-- Whether an operator of rank `bp` would chain onto `lhs` without being associative. -/
def reject_nonassoc_chain (lhs : Expr) (bp : BindingPower) (grouped : Bool) : Bool :=
  bp.assoc == .NonAssoc && !grouped &&
    match lhs with
    | .BinaryOp _ op _ =>
      (features.binding_power op).assoc == .NonAssoc && (features.binding_power op).left == bp.left
    | _ => false

/-- The last part of a turn: an operator without a meaning of its own, and at last one of the
dialect's infix operators. -/
def infix_turn (min_bp : Nat) (lhs : Expr) (grouped : Bool) : ParseResult (Option Expr) := do
  match ← look (expr.peek_bare_infix_operator features) with
  | some op =>
    let bp := features.binding_powers.any_operator
    if bp.left < min_bp then
      return none
    advance
    let right ← parse_expr_bp bp.right
    return some (.NamedOperator lhs op right)
  | none =>
    match ← look fun ts => (expr.peek_infix_operator features ts).bind expr.Infix.means? with
    | none => return none
    | some op =>
      if (← .step (.mode .RestrictBExpr)) && (op == .And || op == .Or) then
        return none
      let bp := features.binding_power op
      if bp.left < min_bp then
        return none
      if reject_nonassoc_chain features lhs bp grouped then
        unexpected "the end of the comparison"
      if expr.is_quantifiable_operator features op &&
          (← look fun ts => expr.peek_quantifier features ts.tail) then
        unexpected "an operand that is not quantified"
      advance
      let right ← parse_expr_bp bp.right
      return some (.BinaryOp lhs op right)

/-- One turn of the climb: the operator behind `lhs` is folded onto it, or ends the climb. -/
def climb_turn (min_bp : Nat) (lhs : Expr) (grouped : Bool) : ParseResult (Option Expr) := do
  if ← look (peek_unread_operator features) then
    unexpected "an operator of the fragment"
  let postfix_op ←
    if features.operator_syntax.postfix_operators
        && min_bp ≤ features.binding_powers.any_operator.left then
      peek_postfix_symbolic_operator
    else
      pure none
  match postfix_op with
  | some op =>
    advance
    return some (.PostfixOperator lhs op)
  | none => infix_turn features min_bp lhs grouped

/-- The turns of the climb. Each takes a token, so the tokens before the next `;` bound them. -/
def climb_loop (min_bp : Nat) : Nat → Expr → Bool → ParseResult Expr
  | 0, lhs, _ => return lhs
  | turns + 1, lhs, grouped => do
    match ← climb_turn features min_bp lhs grouped with
    | none => return lhs
    | some lhs => climb_loop min_bp turns lhs false

def peek_starts_query : ParseResult Bool := peek_is (.keyword .Select)

/-- The elements between the brackets of an array: rows, where the first of them is one. -/
def parse_array_multidim_elements : ParseResult (List Expr) := do
  if ← peek_is (.punctuation .RBracket) then
    return []
  let rows ← peek_is (.punctuation .LBracket)
  parse_comma_separated (if rows then invoke .plain .parse_array_row else parse_expr)

def parse_array_row_body : ParseResult Expr := do
  expect (.punctuation .LBracket) "`[` to open a nested array row"
  let elements ← parse_array_multidim_elements
  expect (.punctuation .RBracket) "`]` to close the array row"
  return .Array elements

def parse_array : ParseResult Expr := do
  advance
  if ← eat (.punctuation .LBracket) then
    let elements ←
      if features.expression_syntax.multidim_array_literals then
        parse_array_multidim_elements
      else if ← peek_is (.punctuation .RBracket) then
        pure []
      else
        parse_comma_separated parse_expr
    expect (.punctuation .RBracket) "`]` to close the array constructor"
    return .Array elements
  else
    expect .lparen "`[` or `(` after `ARRAY`"
    let query ← parse_query false
    expect .rparen "`)` to close the array subquery"
    return .ArraySubquery query

/-- `BY REF` or `BY VALUE`. -/
def parse_xml_passing_mechanism : ParseResult Unit := do
  if ← eat (.keyword .By) then
    if ← peek_is_word "ref" then
      advance
    else
      expect (.keyword .Value) "`REF` or `VALUE` after `BY`"

/-- Path and document are read without the climb. -/
def parse_xml_exists_body : ParseResult Expr := do
  advance
  expect .lparen "`(` after `xmlexists`"
  let path ← parse_primary
  expect_word "passing" "`PASSING`"
  parse_xml_passing_mechanism
  let arg ← parse_primary
  parse_xml_passing_mechanism
  expect .rparen "`)` to close `xmlexists`"
  return .XmlExists path.expr arg.expr

/-- A member whose key is read without the climb. -/
def parse_json_member : ParseResult (Expr × Expr) := do
  if (← peek_is (.keyword .Key)) && !(← peek_nth_is 1 .comma) && !(← peek_nth_is 1 .rparen) then
    advance
  let key ← parse_primary
  if ← eat_either (.keyword .Value) (.punctuation .Colon) then
    let value ← parse_expr
    return (key.expr, value)
  else
    unexpected "a SQL/JSON object member (`key : value` or `key VALUE value`)"

def parse_json_object_body : ParseResult Expr := do
  advance
  expect .lparen "`(` after `JSON_OBJECT`"
  if ← eat .rparen then
    return .JsonObject []
  let entries ← parse_comma_separated parse_json_member
  expect .rparen "`)` to close `JSON_OBJECT`"
  return .JsonObject entries

/-- A literal, a column, a cast, an array, a form with a keyword in front, a group, or an operator
in front of its only operand. -/
def parse_primary_body : ParseResult ParsedExpr := do
  if ← peek_is .lparen then
    return ← invoke .plain .parse_grouped
  match ← look fun ts => ts.head?.bind (prefix_operator features) with
  | some op =>
    advance
    let operand ← parse_expr_bp (op.power features)
    return ⟨.UnaryOp op operand, false⟩
  | none =>
    if ← peek_is_word "cast" then
      return ⟨← invoke .plain .parse_cast, false⟩
    if features.expression_syntax.array_constructor && (← peek_is (.keyword .Array)) &&
        ((← peek_nth_is 1 (.punctuation .LBracket)) || (← peek_nth_is 1 .lparen)) then
      return ⟨← parse_array features, false⟩
    if features.call_syntax.xml_expression_functions && (← peek_is_word "xmlexists") &&
        (← peek_nth_is 1 .lparen) then
      return ⟨← invoke .plain .parse_xml_exists, false⟩
    if features.call_syntax.sqljson_expression_functions && (← peek_is_word "json_object") &&
        (← peek_nth_is 1 .lparen) then
      return ⟨← invoke .plain .parse_json_object, false⟩
    match ← look fun ts => (parse_word_or_literal features ts).map Prod.fst with
    | some expr =>
      advance
      return ⟨.Atom expr, false⟩
    | none => unexpected "an expression"

def parse_grouped_body : ParseResult ParsedExpr := do
  advance
  if ← peek_starts_query then
    let query ← parse_query false
    expect .rparen "`)` to close the subquery"
    return ⟨.Subquery query, false⟩
  if ← peek_is .lparen then
    if let some query ← invoke (.attempt false) .try_parenthesized_query then
      return ⟨.Subquery query, false⟩
  let inner ← parse_expr
  expect .rparen "`)`"
  return ⟨inner, true⟩

def parse_cast_body : ParseResult Expr := do
  advance
  expect .lparen "`(` after the cast keyword"
  let operand ← parse_expr
  expect (.keyword .As) "`AS`"
  let data_type ← parse_data_type
  expect .rparen "`)` to close the cast"
  return .Cast operand data_type

end Expressions

/-! ## Tables -/

section Tables

variable (features : FeatureSet)

def parse_table_with_joins : ParseResult TableWithJoins := invoke .plain .parse_table_with_joins

def parse_table_factor : ParseResult TableFactor := invoke .plain .parse_table_factor

def parse_joins : Nat → ParseResult (List Join)
  | 0 => return []
  | turns + 1 => do
    match ← invoke .guarded .parse_join_inner with
    | some join => return join :: (← parse_joins turns)
    | none => return []

def parse_table_with_joins_body : ParseResult TableWithJoins := do
  let relation ← parse_table_factor
  let joins ← parse_joins (← look List.length)
  return .mk relation joins

/-- The joins behind a right operand belong to it where its own qualifier is still to come. -/
def parse_join_right_operand (factor : TableFactor) : ParseResult TableFactor := do
  if !features.join_syntax.stacked_join_qualifiers then
    return factor
  match ← parse_joins (← look List.length) with
  | [] => return factor
  | joins => return .NestedJoin (.mk factor joins)

def parse_join_constraint : ParseResult (Option Expr) := do
  if ← peek_is_word "on" then
    advance
    return some (← parse_expr)
  if ← peek_is (.keyword .Using) then
    unexpected "a join constraint of the fragment"
  return none

def parse_join_body : ParseResult (Option Join) := do
  if ← peek_is_word "cross" then
    advance
    expect_word "join" "`JOIN`"
    return some (.Cross (← parse_table_factor))
  if (← peek_is_word "inner") || (← peek_is_word "join") then
    if ← peek_is_word "inner" then
      advance
    expect_word "join" "`JOIN`"
    let factor ← parse_table_factor
    let relation ← parse_join_right_operand features factor
    let constraint ← parse_join_constraint
    return some (.Inner relation constraint)
  else
    return none

def parse_table_factor_body : ParseResult TableFactor := do
  if ← peek_is .lparen then
    invoke .guarded .parse_parenthesized_table_factor_inner
  else
    return .Table (← parse_ident)

def parse_parenthesized_table_factor_body : ParseResult TableFactor := do
  advance
  if ← peek_starts_query then
    let subquery ← parse_query false
    expect .rparen "`)` to close the subquery"
    return .Derived subquery
  if ← peek_is .lparen then
    if let some subquery ← invoke (.attempt false) .try_parenthesized_query then
      return .Derived subquery
  match (← parse_table_with_joins).nested with
  | none => unexpected "a joined table inside parentheses"
  | some factor =>
    expect .rparen "`)` to close the joined table"
    return factor

end Tables

/-! ## Queries -/

section Queries

variable (features : FeatureSet)

def clause (kind : ClauseKw) (head : Token → Bool) : ParseResult Bool :=
  .step (.clause kind head)

def parse_group_by_item : ParseResult GroupByItem := invoke .plain .parse_group_by_item

def parse_paren_expr_list : ParseResult (List Expr) := do
  expect .lparen "`(`"
  let exprs ← parse_comma_separated parse_expr
  expect .rparen "`)`"
  return exprs

/-- `ROLLUP`, `CUBE`, `GROUPING SETS`, or the empty set, where one of them begins. -/
def parse_grouping_set_construct : ParseResult (Option GroupByItem) := do
  if (← peek_is_word "rollup") && (← peek_nth_is 1 .lparen) then
    advance
    return some (.Rollup (← parse_paren_expr_list))
  if (← peek_is_word "cube") && (← peek_nth_is 1 .lparen) then
    advance
    return some (.Cube (← parse_paren_expr_list))
  if (← peek_is_word "grouping") && (← look fun ts => ts[1]?.any (is_word "sets")) &&
      (← peek_nth_is 2 .lparen) then
    advance
    advance
    expect .lparen "`(` after `GROUPING SETS`"
    let sets ← parse_comma_separated parse_group_by_item
    expect .rparen "`)` to close the `GROUPING SETS` list"
    return some (.GroupingSets sets)
  if (← peek_is .lparen) && (← peek_nth_is 1 .rparen) then
    advance
    advance
    return some .Empty
  return none

def parse_group_by_item_body : ParseResult GroupByItem := do
  let construct ←
    if features.grouping_syntax.grouping_sets then
      parse_grouping_set_construct
    else
      pure none
  match construct with
  | some item => return item
  | none => return .Expr (← parse_expr)

def parse_select_body : ParseResult
    (List Expr × List TableWithJoins × Option Expr × List GroupByItem × Option Expr) := do
  expect (.keyword .Select) "`SELECT`"
  let projection ← parse_comma_separated parse_projection_target_expr
  let tables ←
    if ← clause .From (· == .keyword .From) then
      parse_comma_separated parse_table_with_joins
    else
      pure []
  let selection ←
    if ← clause .Where (is_word "where") then
      pure (some (← parse_expr))
    else
      pure none
  let group_by ←
    if ← clause .GroupBy (is_word "group") then do
      expect (.keyword .By) "`BY`"
      parse_comma_separated parse_group_by_item
    else
      pure []
  let having ←
    if ← clause .Having (is_word "having") then
      pure (some (← parse_expr))
    else
      pure none
  return (projection, tables, selection, group_by, having)

def parse_select : ParseResult SetExpr := do
  let ((projection, tables, selection, group_by, having), node_id) ← invoke .owned .parse_select
  return .Select projection tables selection group_by having node_id

/-- An operand in parentheses, and whether it is a whole grouping, which nothing may extend. -/
def parse_parenthesized_set_operand (grouping : Bool) : ParseResult (SetExpr × Bool) := do
  let paren_operands := features.select_syntax.parenthesized_query_operands
  if !paren_operands && !grouping then
    unexpected "`SELECT`, `TABLE`, or `VALUES`"
  advance
  if !((← peek_starts_query) || (← peek_is .lparen)) then
    unexpected "a query inside the set-operation parentheses"
  let query ← parse_query grouping
  expect .rparen "`)` to close the set-operation operand"
  return (if query.is_bare then query.body else .Query query, grouping && !paren_operands)

def parse_set_operand (grouping : Bool) : ParseResult (SetExpr × Bool) := do
  if ← peek_is (.keyword .Select) then
    return (← parse_select, false)
  if ← peek_is .lparen then
    parse_parenthesized_set_operand features grouping
  else
    unexpected "`SELECT`, `TABLE`, `VALUES`, or `(`"

def set_operator : Token → Option SetOperator
  | .keyword .Union => some .Union
  | .keyword .Intersect => some .Intersect
  | .keyword .Except => some .Except
  | _ => none

/-- The `ALL` after a set operator, where the dialect gives that operator one. -/
def parse_set_quantifier (op : SetOperator) : ParseResult Bool := do
  if ← peek_is (.keyword .All) then
    let allowed := match op with
      | .Intersect => features.select_syntax.intersect_all
      | .Except => features.select_syntax.except_all
      | .Union => true
    if !allowed then
      unexpected "a set-operation modifier allowed by the dialect"
    advance
    return true
  else
    return false

/-- The rounds of the climb over set operators. -/
def set_operations (min_bp : Nat) : Nat → SetExpr → ParseResult SetExpr
  | 0, body => return body
  | turns + 1, body => do
    match ← look fun ts => ts.head?.bind set_operator with
    | none => return body
    | some op =>
      let bp := features.set_operation_binding_power op
      if bp.left < min_bp then
        return body
      advance
      let all ← parse_set_quantifier features op
      let (right, _) ← invoke .plain (.parse_set_expr_bp false bp.right)
      set_operations min_bp turns (.SetOperation op all body right)

def parse_set_expr_bp_body (grouping : Bool) (min_bp : Nat) : ParseResult (SetExpr × Bool) := do
  let (body, complete) ← parse_set_operand features (grouping && (← peek_is .lparen))
  if complete then
    return (body, true)
  else
    let body ← set_operations features min_bp (← look List.length) body
    return (body, false)

def parse_query_after_with_body (grouping : Bool) :
    ParseResult (SetExpr × List Expr × Option Expr) := do
  let (body, complete) ← invoke .plain (.parse_set_expr_bp grouping 0)
  if complete then
    return (body, [], none)
  let order_by ←
    if ← clause .OrderBy (· == .keyword .Order) then do
      expect (.keyword .By) "`BY`"
      parse_comma_separated parse_expr
    else
      pure []
  let limit ←
    if ← clause .Limit (· == .keyword .Limit) then
      pure (some (← parse_expr))
    else
      pure none
  return (body, order_by, limit)

def parse_query_inner_body (grouping : Bool) : ParseResult Query := do
  let ((body, order_by, limit), node_id) ← invoke .owned (.parse_query_after_with grouping)
  return .mk body order_by limit node_id

end Queries

/-! ## Other statements -/

section Statements

variable (features : FeatureSet)

/-- A sign, which only a number may follow. -/
def parse_signed_number (expected : String) : ParseResult (Option (Option Operator × Token)) := do
  let sign ← look fun ts => match ts.head? with
    | some (.operator .Minus) => some Operator.Minus
    | some (.operator .Plus) => some Operator.Plus
    | _ => none
  if sign.isSome then
    advance
  match ← look fun ts => ts.head? with
  | some (.number text) =>
    advance
    return some (sign, .number text)
  | _ =>
    if sign.isSome then
      unexpected expected
    return none

/-- A name, which may be a keyword. -/
def parse_as_alias_ident : ParseResult Token := do
  match ← look fun ts => ts.head? with
  | some (.word name) =>
    advance
    return .word name
  | some (.quoted_ident name) =>
    advance
    return .quoted_ident name
  | some (.keyword name) =>
    advance
    return .keyword name
  | _ => unexpected "an identifier"

def parse_string_literal (expected : String) : ParseResult Token := do
  match ← look fun ts => ts.head? with
  | some (.string text) =>
    advance
    return .string text
  | _ => unexpected expected

def parse_set_parameter_value_body : ParseResult SetParameterValue := do
  if features.expression_syntax.collection_literals && (← peek_is (.punctuation .LBracket)) then
    advance
    let values ←
      if ← peek_is (.punctuation .RBracket) then
        pure []
      else
        parse_comma_separated (invoke .plain .parse_set_parameter_value)
    expect (.punctuation .RBracket) "`]` to close the SET list value"
    return .List values
  match ← parse_signed_number "a number after a sign in a SET value" with
  | some (sign, literal) => return .Literal sign literal
  | none =>
    match ← look fun ts => ts.head? with
    | some (.string text) =>
      advance
      return .Literal none (.string text)
    | some (.word name) =>
      advance
      return .Name (.word name)
    | _ => unexpected "a SET value"

def parse_set : ParseResult Statement := do
  advance
  let target ← parse_ident
  unless ← eat_either (.operator .Eq) (.keyword .To) do
    unexpected "`=` or `TO` in a `SET` statement"
  let values ← parse_comma_separated (invoke .plain .parse_set_parameter_value)
  return .Set target values

def parse_copy_generic_option_value_body : ParseResult CopyOptionValue := do
  if ← eat (.operator .Star) then
    return .Star
  if ← eat .lparen then
    let values ← parse_comma_separated (invoke .plain .parse_copy_generic_option_value)
    expect .rparen "`)` to close the COPY option argument list"
    return .List values
  match ← parse_signed_number "a number after a sign in a COPY option value" with
  | some (sign, value) => return .Number sign value
  | none =>
    match ← look fun ts => ts.head? with
    | some (.string text) =>
      advance
      return .String (.string text)
    | _ => return .Word (← parse_as_alias_ident)

def parse_copy_option : ParseResult (Token × Option CopyOptionValue) := do
  let name ← parse_as_alias_ident
  if (← peek_is .comma) || (← peek_is .rparen) then
    return (name, none)
  else
    return (name, some (← invoke .plain .parse_copy_generic_option_value))

def parse_optional_copy_options : ParseResult (List (Token × Option CopyOptionValue)) := do
  discard (eat (.keyword .With))
  if ← eat .lparen then
    let options ← parse_comma_separated parse_copy_option
    expect .rparen "`)` to close the COPY option list"
    return options
  else
    return []

def parse_copy_into_option : ParseResult (Token × CopyOptionValue) := do
  let name ← parse_as_alias_ident
  expect (.operator .Eq) "`=` after a COPY INTO option name"
  let value ← invoke .plain .parse_copy_into_option_value
  return (name, value)

/-- A list of options in parentheses, or a value that other dialects have too. -/
def parse_copy_into_option_value_body : ParseResult CopyOptionValue := do
  if (← peek_is .lparen) && (← peek_nth_is 2 (.operator .Eq)) then
    advance
    let options ← many_tail (do return !(← peek_is .rparen)) parse_copy_into_option
      (← look List.length)
    expect .rparen "`)` to close the COPY INTO nested option list"
    return .OptionList options
  else
    invoke .plain .parse_copy_generic_option_value

/-- Whether an option of `COPY INTO` begins here. -/
def peek_starts_copy_into_option : ParseResult Bool :=
  look fun
    | .word _ :: .operator .Eq :: _ | .keyword _ :: .operator .Eq :: _ => true
    | _ => false

def parse_copy_into : ParseResult Statement := do
  advance
  advance
  let target ← parse_ident
  expect (.keyword .From) "`FROM`"
  let source ← parse_string_literal "a location"
  let options ← many_tail peek_starts_copy_into_option parse_copy_into_option (← look List.length)
  return .CopyInto target source options

def parse_copy : ParseResult Statement := do
  advance
  if ← eat .lparen then
    match ← invoke .plain .parse_statement with
    | .Query source =>
      expect .rparen "`)` to close the COPY query"
      expect (.keyword .To) "`TO`"
      let target ← parse_string_literal "a file name, `STDIN`, `STDOUT`, or `PROGRAM`"
      return .CopyQuery source target (← parse_optional_copy_options)
    | _ =>
      unexpected "a SELECT, VALUES, INSERT, UPDATE, or DELETE query inside `COPY ( ... )`"
  else
    let table ← parse_ident
    unless ← eat_either (.keyword .From) (.keyword .To) do
      unexpected "`FROM` or `TO`"
    let target ← parse_string_literal "a file name, `STDIN`, `STDOUT`, or `PROGRAM`"
    return .Copy table target (← parse_optional_copy_options)

def parse_copy_or_copy_into_statement : ParseResult Statement := do
  if features.utility_syntax.copy_into &&
      (← look fun ts => ts[1]?.any (is_word "into")) then
    parse_copy_into
  else if features.utility_syntax.copy then
    parse_copy
  else
    unexpected "`INTO` after `COPY`"

def parse_statement_inner_body : ParseResult Statement := do
  if features.show_syntax.session_statements && (← peek_is (.keyword .Set)) then
    parse_set
  else if (features.utility_syntax.copy || features.utility_syntax.copy_into) &&
      (← peek_is_word "copy") then
    parse_copy_or_copy_into_statement features
  else if (← peek_starts_query) || (← peek_is .lparen) then
    return .Query (← parse_query false)
  else
    unexpected "a SQL statement"

end Statements

end ParseResult

open squonk.parser.method.ParseResult

/-- The grammar of a dialect. -/
def sql (features : FeatureSet) (types : TypeNameSyntax) : Grammar where
  Proc := Proc
  Ret := Proc.Ret
  body
    | .parse_statement => invoke .guarded .parse_statement_inner
    | .parse_statement_inner => parse_statement_inner_body features
    | .parse_query_inner grouping => parse_query_inner_body grouping
    | .parse_query_after_with grouping => parse_query_after_with_body grouping
    | .parse_set_expr_bp grouping min_bp => parse_set_expr_bp_body features grouping min_bp
    | .parse_select => parse_select_body
    | .parse_table_with_joins => parse_table_with_joins_body
    | .parse_table_factor => parse_table_factor_body
    | .parse_parenthesized_table_factor_inner => parse_parenthesized_table_factor_body
    | .parse_join_inner => parse_join_body features
    | .parse_expr => parse_expr_bp 0
    | .parse_expr_bp_inner min_bp => do
      let parsed ← parse_primary
      climb_loop features min_bp (← look List.length) parsed.expr parsed.grouped
    | .parse_primary => parse_primary_body features
    | .operand_ahead => do
      ParseResult.advance
      discard parse_primary
    | .parse_grouped => parse_grouped_body
    | .try_parenthesized_query => do
      let query ← parse_query true
      expect .rparen "`)`"
      return query
    | .parse_cast => parse_cast_body
    | .parse_array_row => parse_array_row_body
    | .parse_xml_exists => parse_xml_exists_body
    | .parse_json_object => parse_json_object_body
    | .parse_group_by_item => parse_group_by_item_body features
    | .parse_set_parameter_value => parse_set_parameter_value_body features
    | .parse_copy_generic_option_value => parse_copy_generic_option_value_body
    | .parse_copy_into_option_value => parse_copy_into_option_value_body
    | .parse_data_type => parse_typed_data_type types

end squonk.parser.method
