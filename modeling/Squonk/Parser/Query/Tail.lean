import Squonk.Ast.Query
import Squonk.Parser.Engine

/-!
# The clauses of a query's tail

Each clause is read under the gate of the dialect. The parts a query is built from are read by
the methods of a `Grammar`.
-/

open squonk.ast squonk.tokenizer squonk.dialect

namespace squonk.parser

/-- The methods that read the parts of a query, and the shapes of them that the query grammar
looks at. -/
structure Grammar (L : Leaves) where
  parse_ident : ParseResult L.Ident
  parse_object_name : ParseResult L.ObjectName
  expect_string_literal : String → ParseResult L.Literal
  parse_expr : ParseResult L.Expr
  parse_star_or_expr : ParseResult L.Expr
  parse_aexpr_const : ParseResult L.Expr
  parse_limit_percent_operand : ParseResult L.Expr
  parse_order_by_using_operator : ParseResult L.OrderByUsing
  parse_format_name : ParseResult L.Ident
  parse_pipe_operator : ParseResult L.PipeOperator
  parse_select : ParseResult L.Select
  parse_table_command : ParseResult L.Select
  parse_select_from_first : ParseResult L.Select
  parse_values : ParseResult L.Values
  parse_pivot_operator : ParseResult L.Pivot
  parse_unpivot_operator : ParseResult L.Unpivot
  parse_dml_statement : ParseResult L.Dml
  /-- A data-modifying statement begins here. -/
  peek_starts_dml : ParseResult Bool
  is_integer_literal : L.Expr → Bool
  is_parameter : L.Expr → Bool
  is_numeric_literal : L.Expr → Bool

section Clauses

variable {L : Leaves} (G : Grammar L) (features : FeatureSet)

def parse_sort_direction : ParseResult (Option Bool) := do
  if ← eat_keyword .Asc then
    return some true
  else if ← eat_keyword .Desc then
    return some false
  else
    return none

def parse_nulls_order : ParseResult (Option Bool) := do
  if !(← eat_keyword .Nulls) then
    return none
  if ← eat_keyword .First then
    return some true
  else if ← eat_keyword .Last then
    return some false
  else
    unexpected "`FIRST` or `LAST`"

def parse_order_by_item (allow_star : Bool) : ParseResult (OrderByExpr L) := do
  let expr ← if allow_star then G.parse_star_or_expr else G.parse_expr
  let using_clause ← pure features.grouping_syntax.order_by_using <&&> eat_keyword .Using
  let (asc, operator) ←
    if using_clause then do
      let operator ← G.parse_order_by_using_operator
      pure (none, some operator)
    else do
      let asc ← parse_sort_direction
      pure (asc, none)
  let nulls_first ← parse_nulls_order
  return { expr, asc, «using» := operator, nulls_first }

def parse_order_by_items (allow_star : Bool) : ParseResult (List (OrderByExpr L)) := do
  if !(← eat_keyword .Order) then
    return []
  expect_keyword .By
  parse_comma_separated (parse_order_by_item G features allow_star)

def parse_order_by_allowing_star : ParseResult (List (OrderByExpr L)) :=
  parse_order_by_items G features true

/-- The `ORDER BY` of a query's tail: sort keys, or the mode that sorts by every column. -/
def parse_order_by_clause : ParseResult (List (OrderByExpr L) × Option OrderByAll) := do
  if features.grouping_syntax.order_by_all && (← peek_is_keyword .Order)
      && (← peek_nth_is_keyword 1 .By) && (← peek_nth_is_keyword 2 .All) then
    advance
    advance
    advance
    let asc ← parse_sort_direction
    let nulls_first ← parse_nulls_order
    return ([], some { asc, nulls_first })
  let order_by ← parse_order_by_allowing_star G features
  return (order_by, none)

def parse_limit_operand : ParseResult L.Expr := do
  let expr ← G.parse_expr
  if !features.query_tail_syntax.limit_expressions
      && !(G.is_integer_literal expr || G.is_parameter expr) then
    error_at "an integer literal or `?` placeholder as the `LIMIT`/`OFFSET` count"
  return expr

/-- The count and offset that a `BY` must follow; `none` when the head cannot be read. -/
def parse_limit_by_head : ParseResult (Option (L.Expr × Option L.Expr)) := do
  try
    let limit ← parse_limit_operand G features
    if ← eat_keyword .Offset then
      let offset ← parse_limit_operand G features
      return some (limit, some offset)
    else
      return some (limit, none)
  catch _ => return none

def parse_limit_by : ParseResult (Option (LimitBy L)) := do
  if !features.query_tail_syntax.limit_by_clause then
    return none
  if !(← peek_is_keyword .Limit) then
    return none
  let position ← checkpoint
  expect_keyword .Limit
  match ← parse_limit_by_head G features with
  | none =>
    rewind position
    return none
  | some (limit, offset) =>
    if !(← eat_keyword .By) then
      rewind position
      return none
    let «by» ← parse_comma_separated G.parse_expr
    return some { limit, offset, «by» }

def parse_setting : ParseResult (Setting L) := do
  let name ← G.parse_ident
  if !(← eat_op .Eq) then
    unexpected "`=` in a SETTINGS pair"
  let value ← G.parse_expr
  return { name, value }

def parse_settings : ParseResult (List (Setting L)) := do
  if !features.query_tail_syntax.settings_clause then
    return []
  if !(← eat_contextual_keyword .Settings) then
    return []
  parse_comma_separated (parse_setting G)

def parse_format : ParseResult (Option (FormatClause L)) := do
  if !features.query_tail_syntax.format_clause then
    return none
  if !(← eat_contextual_keyword .Format) then
    return none
  let name ← G.parse_format_name
  return some { name }

def pipe_operators_tail (item : ParseResult L.PipeOperator) :
    Nat → ParseResult (List L.PipeOperator)
  | 0 => return []
  | n + 1 => do
    if ← eat_op .PipeArrow then
      let head ← item
      let tail ← pipe_operators_tail item n
      return head :: tail
    else
      return []

def parse_pipe_operators : ParseResult (List L.PipeOperator) := do
  if !features.query_tail_syntax.pipe_syntax then
    return []
  pipe_operators_tail G.parse_pipe_operator (← get).tokens.length

def for_clause_leads : ParseResult Bool := do
  return features.query_tail_syntax.for_xml_json_clause && (← peek_is_keyword .For)
    && ((← peek_nth_is_contextual_keyword 1 .Xml) || (← peek_nth_is_contextual_keyword 1 .Json))

def parse_lock_wait : ParseResult (Option LockWait) := do
  if ← eat_keyword .Nowait then
    return some .NoWait
  else if ← eat_keyword .Skip then
    expect_keyword .Locked
    return some .SkipLocked
  else
    return none

def parse_lock_strength (key_strengths : Bool) : ParseResult LockStrength := do
  if ← eat_keyword .Update then
    return .Update
  if ← eat_keyword .Share then
    return .Share
  if !key_strengths then
    unexpected "`UPDATE` or `SHARE` after `FOR`"
  if ← eat_keyword .No then
    expect_keyword .Key
    expect_keyword .Update
    return .NoKeyUpdate
  if ← eat_keyword .Key then
    expect_keyword .Share
    return .KeyShare
  unexpected "`UPDATE`, `SHARE`, `NO KEY UPDATE`, or `KEY SHARE` after `FOR`"

def parse_optional_locking_clause : ParseResult (Option (LockingClause L)) := do
  if ← for_clause_leads features then
    return none
  if ← eat_keyword .For then
    let strength ← parse_lock_strength features.query_tail_syntax.key_lock_strengths
    let of ←
      if ← eat_keyword .Of then parse_comma_separated G.parse_object_name else pure []
    let wait ← parse_lock_wait
    return some { strength, of, wait, spelling := .Modern }
  else if (← peek_is_keyword .Lock) && (← peek_nth_is_keyword 1 .In) then
    advance
    expect_keyword .In
    expect_keyword .Share
    expect_keyword .Mode
    return some { strength := .Share, of := [], wait := none, spelling := .LockInShareMode }
  else
    return none

/-- The clauses stacked on the first one. Each takes a token, so the tokens left bound them. -/
def locking_clauses_tail : Nat → ParseResult (List (LockingClause L))
  | 0 => return []
  | n + 1 => do
    match ← parse_optional_locking_clause G features with
    | some clause => return clause :: (← locking_clauses_tail n)
    | none => return []

def parse_locking_clauses : ParseResult (List (LockingClause L)) := do
  if !features.query_tail_syntax.locking_clauses then
    return []
  match ← parse_optional_locking_clause G features with
  | none => return []
  | some first =>
    if features.query_tail_syntax.stacked_locking_clauses then
      return first :: (← locking_clauses_tail G features (← get).tokens.length)
    else
      return [first]

def parse_optional_for_name : ParseResult (Option L.Literal) := do
  if !(← eat_punct .LParen) then
    return none
  let name ← G.expect_string_literal "a quoted name inside `( … )`"
  expect_punct .RParen "`)` to close the FOR clause name"
  return some name

def parse_for_root : ParseResult (ForRoot L) := do
  let name ← parse_optional_for_name G
  return { name }

def parse_for_xml_mode : ParseResult (ForXmlMode L) := do
  if ← eat_contextual_keyword .Raw then
    return .Raw (← parse_optional_for_name G)
  else if ← eat_contextual_keyword .Auto then
    return .Auto
  else if ← eat_contextual_keyword .Explicit then
    return .Explicit
  else if ← eat_contextual_keyword .Path then
    return .Path (← parse_optional_for_name G)
  else
    unexpected "`RAW`, `AUTO`, `EXPLICIT`, or `PATH` after `FOR XML`"

def parse_for_xml_elements : ParseResult ForXmlElements := do
  if ← eat_contextual_keyword .Xsinil then
    return .XsiNil
  else if ← eat_contextual_keyword .Absent then
    return .Absent
  else
    return .Plain

def for_xml_directives (mode : ForXmlMode L) :
    Nat → Option ForXmlElements → Bool → Bool → Option (ForRoot L) → ParseResult (ForClause L)
  | 0, elements, binary_base64, typed, root =>
    return .Xml mode elements binary_base64 typed root
  | n + 1, elements, binary_base64, typed, root => do
    if ← eat_punct .Comma then
      if ← eat_contextual_keyword .Binary then
        expect_contextual_keyword .Base64
        for_xml_directives mode n elements true typed root
      else if ← eat_contextual_keyword .Type then
        for_xml_directives mode n elements binary_base64 true root
      else if ← eat_contextual_keyword .Root then
        let root ← parse_for_root G
        for_xml_directives mode n elements binary_base64 typed (some root)
      else if ← eat_contextual_keyword .Elements then
        let elements ← parse_for_xml_elements
        for_xml_directives mode n (some elements) binary_base64 typed root
      else
        unexpected
          "`BINARY BASE64`, `TYPE`, `ROOT`, or `ELEMENTS` after `,` in a FOR XML clause"
    else
      return .Xml mode elements binary_base64 typed root

def parse_for_xml : ParseResult (ForClause L) := do
  let mode ← parse_for_xml_mode G
  for_xml_directives G mode (← get).tokens.length none false false none

def for_json_directives (mode : ForJsonMode) :
    Nat → Option (ForRoot L) → Bool → Bool → ParseResult (ForClause L)
  | 0, root, include_null_values, without_array_wrapper =>
    return .Json mode root include_null_values without_array_wrapper
  | n + 1, root, include_null_values, without_array_wrapper => do
    if ← eat_punct .Comma then
      if ← eat_contextual_keyword .Root then
        let root ← parse_for_root G
        for_json_directives mode n (some root) include_null_values without_array_wrapper
      else if ← eat_contextual_keyword .IncludeNullValues then
        for_json_directives mode n root true without_array_wrapper
      else if ← eat_contextual_keyword .WithoutArrayWrapper then
        for_json_directives mode n root include_null_values true
      else
        unexpected "`ROOT`, `INCLUDE_NULL_VALUES`, or `WITHOUT_ARRAY_WRAPPER` after `,` in a FOR JSON clause"
    else
      return .Json mode root include_null_values without_array_wrapper

def parse_for_json : ParseResult (ForClause L) := do
  let mode ←
    if ← eat_contextual_keyword .Auto then
      pure .Auto
    else if ← eat_contextual_keyword .Path then
      pure .Path
    else
      unexpected "`AUTO` or `PATH` after `FOR JSON`"
  for_json_directives G mode (← get).tokens.length none false false

def parse_for_clause : ParseResult (Option (ForClause L)) := do
  if !(← for_clause_leads features) then
    return none
  expect_keyword .For
  if ← eat_contextual_keyword .Xml then
    return some (← parse_for_xml G)
  else
    expect_contextual_keyword .Json
    return some (← parse_for_json G)

def finish_limit (limit offset : Option L.Expr) (limit_form : LimitSyntax)
    (with_ties : Option Bool) (percent : Option LimitPercent) : Limit L :=
  { limit, offset, limit_form, with_ties, percent, fetch_spelling := .FirstRows }

/-- `<operand> %`; `none`, with the state where it stopped, when the shape is another. -/
def parse_percent_symbol_count : ParseResult (Option L.Expr) := do
  try
    let value ← G.parse_limit_percent_operand
    if ← eat_op .Percent then
      return some value
    else
      return none
  catch _ => return none

def parse_limit_count : ParseResult (L.Expr × Option LimitPercent) := do
  if !features.query_tail_syntax.limit_percent then
    return (← parse_limit_operand G features, none)
  let position ← checkpoint
  let operand ←
    try
      let value ← parse_limit_operand G features
      pure (Except.ok value)
    catch error => pure (Except.error error)
  match operand with
  | .ok value =>
    if ← pure (G.is_numeric_literal value) <&&> eat_keyword .Percent then
      return (value, some .Keyword)
    else
      return (value, none)
  | .error error =>
    rewind position
    match ← parse_percent_symbol_count G with
    | some value => return (value, some .Symbol)
    | none =>
      rewind position
      throw error

def eat_row_or_rows : ParseResult (Option Bool) := do
  if ← eat_keyword .Row then
    return some true
  else if ← eat_keyword .Rows then
    return some false
  else
    return none

def parse_fetch_first : ParseResult (Option L.Expr × Bool × FetchSpelling) := do
  expect_keyword .Fetch
  let next ←
    if ← eat_keyword .First then
      pure false
    else if ← eat_keyword .Next then
      pure true
    else
      unexpected "`FIRST` or `NEXT`"
  let count ←
    if (← peek_is_keyword .Row) || (← peek_is_keyword .Rows) then
      pure none
    else do
      let count ← G.parse_expr
      pure (some count)
  match ← eat_row_or_rows with
  | none => unexpected "`ROW` or `ROWS`"
  | some row_singular =>
    let spelling := FetchSpelling.from_axes next row_singular
    if ← eat_keyword .Only then
      return (count, false, spelling)
    else if ← eat_keyword .With then
      expect_keyword .Ties
      return (count, true, spelling)
    else
      unexpected "`ONLY` or `WITH TIES`"

/-- What follows a leading `OFFSET <offset>`. -/
def parse_limit_after_offset (offset : L.Expr) : ParseResult (Limit L) := do
  if ← pure features.query_tail_syntax.fetch_first <&&> Option.isSome <$> eat_row_or_rows then
    if ← peek_is_keyword .Fetch then
      let (count, with_ties, fetch_spelling) ← parse_fetch_first G
      let limit := finish_limit count (some offset) .FetchFirst (some with_ties) none
      return { limit with fetch_spelling }
    else
      return finish_limit none (some offset) .FetchFirst none none
  let limit ←
    if ← eat_keyword .Limit then do
      let limit ← parse_limit_operand G features
      pure (some limit)
    else
      pure none
  return finish_limit limit (some offset) .LimitOffset none none

def parse_limit : ParseResult (Option (Limit L)) := do
  if ← eat_keyword .Limit then
    let (first, percent) ← parse_limit_count G features
    if ← pure (percent.isNone && features.query_tail_syntax.limit_offset_comma)
        <&&> eat_punct .Comma then
      let count ← parse_limit_operand G features
      return some (finish_limit (some count) (some first) .CommaOffset none none)
    let offset ←
      if ← eat_keyword .Offset then do
        let offset ← parse_limit_operand G features
        pure (some offset)
      else
        pure none
    return some (finish_limit (some first) offset .LimitOffset none percent)
  if ← pure features.query_tail_syntax.leading_offset <&&> eat_keyword .Offset then
    let offset ← parse_limit_operand G features
    return some (← parse_limit_after_offset G features offset)
  if features.query_tail_syntax.fetch_first && (← peek_is_keyword .Fetch) then
    let (count, with_ties, fetch_spelling) ← parse_fetch_first G
    let limit := finish_limit count none .FetchFirst (some with_ties) none
    return some { limit with fetch_spelling }
  return none

end Clauses

end squonk.parser
