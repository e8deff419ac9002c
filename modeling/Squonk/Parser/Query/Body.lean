import Squonk.Parser.Query.Tail

/-!
# The query grammar

A query is a set expression read by a precedence climb, between an optional `WITH` and the
clauses of its tail.
-/

open squonk.ast squonk.tokenizer squonk.dialect

namespace squonk.parser

variable {L : Leaves} (G : Grammar L) (features : FeatureSet)

def peek_set_operator : ParseResult (Option SetOperator) := do
  if ← peek_is_keyword .Union then
    return some .Union
  else if ← peek_is_keyword .Intersect then
    return some .Intersect
  else if ← peek_is_keyword .Except then
    return some .Except
  else
    return none

def peek_starts_query : ParseResult Bool := do
  return (← peek_is_keyword .Select)
    || (features.select_syntax.explicit_table && (← peek_is_keyword .Table))
    || (← peek_is_keyword .Values)
    || (← peek_is_keyword .With)
    || (features.select_syntax.from_first && (← peek_is_keyword .From))

theorem peek_starts_query_ok {s t : State} {starts : Bool}
    (h : peek_starts_query features s = .ok starts t) : t = s := by
  simp only [peek_starts_query, peek_is_keyword, peek_is, ParseResult.bind_ok, peek_nth_is_ok,
    ParseResult.pure_ok] at h
  grind

/-! ## Table expressions -/

def parse_cte_columns : ParseResult (List L.Ident) := do
  if !(← eat_punct .LParen) then
    return []
  let columns ← parse_comma_separated G.parse_ident
  expect_punct .RParen "`)` to close the CTE column list"
  return columns

def parse_cte_using_key : ParseResult (Option (List L.Ident)) := do
  if !features.join_syntax.recursive_using_key then
    return none
  if !(← eat_keyword .Using) then
    return none
  expect_keyword .Key
  expect_punct .LParen "`(` to open the USING KEY column list"
  let columns ← parse_comma_separated G.parse_ident
  expect_punct .RParen "`)` to close the USING KEY column list"
  return some columns

def parse_cte_materialization_hint : ParseResult (Option Bool) := do
  if ← eat_keyword .Materialized then
    return some true
  else if ← eat_keyword .Not then
    expect_keyword .Materialized
    return some false
  else
    return none

def parse_cte_search_clause : ParseResult (Option (CteSearchClause L)) := do
  if !(← eat_keyword .Search) then
    return none
  let breadth_first ←
    if ← eat_keyword .Breadth then
      pure true
    else do
      expect_keyword .Depth
      pure false
  expect_keyword .First
  expect_keyword .By
  let columns ← parse_comma_separated G.parse_ident
  expect_keyword .Set
  let set_column ← G.parse_ident
  return some { breadth_first, columns, set_column }

def parse_cte_cycle_clause : ParseResult (Option (CteCycleClause L)) := do
  if !(← eat_keyword .Cycle) then
    return none
  let columns ← parse_comma_separated G.parse_ident
  expect_keyword .Set
  let mark_column ← G.parse_ident
  let mark ←
    if ← eat_keyword .To then do
      let value ← G.parse_aexpr_const
      expect_keyword .Default
      let default ← G.parse_aexpr_const
      pure (some { value, default })
    else
      pure none
  expect_keyword .Using
  let path_column ← G.parse_ident
  return some { columns, mark_column, mark, path_column }

section Recursion

/- The two methods that take a level of the recursion limit, at the depth that is left. -/
variable (parse_query : ParseResult (Query L)) (parse_cte_body : ParseResult (CteBody L))

def parse_cte : ParseResult (Cte L) := do
  let name ← G.parse_ident
  let columns ← parse_cte_columns G
  let using_key ← parse_cte_using_key G features
  expect_keyword .As
  let materialized ← parse_cte_materialization_hint
  expect_punct .LParen "`(` to open the CTE query"
  let body ← parse_cte_body
  expect_punct .RParen "`)` to close the CTE query"
  if features.join_syntax.recursive_search_cycle then
    let search ← parse_cte_search_clause G
    let cycle ← parse_cte_cycle_clause G
    return { name, columns, using_key, materialized, body, search, cycle }
  else
    return { name, columns, using_key, materialized, body, search := none, cycle := none }

/-- The table expression is a `UNION` under an order or a row limit. -/
def recursive_union_modifier_reject (cte : Cte L) : Bool :=
  match cte.body with
  | .Query query =>
    match query.body with
    | .SetOperation .Union .. =>
      !query.order_by.isEmpty || query.order_by_all.isSome
        || query.limit.any fun limit => limit.limit.isSome || limit.offset.isSome
    | _ => false
  | .Dml .. => false

def parse_with_clause : ParseResult (Option (With L)) := do
  if !(← eat_keyword .With) then
    return none
  let recursive ← eat_keyword .Recursive
  let ctes ← parse_comma_separated (parse_cte G features parse_cte_body)
  if recursive && features.join_syntax.recursive_union_rejects_order_limit
      && ctes.any recursive_union_modifier_reject then
    error_at "no ORDER BY/LIMIT/OFFSET on a recursive CTE's UNION query (a recursive query cannot carry these modifiers)"
  return some { recursive, ctes }

/-! ## Set expressions -/

/-- One of the clauses that make the parentheses of a query load-bearing is there. -/
def keeps_parentheses (query : Query L) : Bool :=
  !(query.with.isNone && query.order_by.isEmpty && query.order_by_all.isNone
    && query.limit.isNone && query.locking.isEmpty)

/- The test is a parameter of the climb, so that a source can also be read with every
parenthesis kept. -/
variable (keeps : Query L → Bool)

def parse_parenthesized_set_operand : ParseResult (SetExpr L) := do
  let grouping ← take_paren_query_grouping
  let paren_operands := features.select_syntax.parenthesized_query_operands
  if !paren_operands && !grouping then
    unexpected "`SELECT`, `TABLE`, or `VALUES`"
  advance
  if !((← peek_starts_query features) || (← peek_is_punct .LParen)) then
    unexpected "a query inside the set-operation parentheses"
  set_paren_query_grouping grouping
  let query ← parse_query
  expect_punct .RParen "`)` to close the set-operation operand"
  if grouping && !paren_operands then
    mark_grouped_query_complete
  if keeps query then
    return .Query query
  else
    return query.body

def parse_set_operand : ParseResult (SetExpr L) := do
  if ← peek_is_keyword .Select then
    return .Select (← G.parse_select)
  if features.select_syntax.explicit_table && (← peek_is_keyword .Table) then
    return .Select (← G.parse_table_command)
  if ← peek_is_keyword .Values then
    return .Values (← G.parse_values)
  if features.select_syntax.from_first && (← peek_is_keyword .From) then
    return .Select (← G.parse_select_from_first)
  if features.table_factor_syntax.pivot && (← peek_is_keyword .Pivot) then
    return .Pivot (← G.parse_pivot_operator)
  if features.table_factor_syntax.unpivot && (← peek_is_keyword .Unpivot) then
    return .Unpivot (← G.parse_unpivot_operator)
  if ← peek_is_punct .LParen then
    parse_parenthesized_set_operand features parse_query keeps
  else
    unexpected "`SELECT`, `TABLE`, `VALUES`, or `(`"

/-- The `ALL` after a set operator, where the dialect gives that operator one. -/
def parse_set_quantifier (op : SetOperator) : ParseResult Bool := do
  if ← peek_is_keyword .All then
    let allowed := match op with
      | .Intersect => features.select_syntax.intersect_all
      | .Except => features.select_syntax.except_all
      | .Union => true
    if !allowed then
      unexpected "a set-operation modifier allowed by the dialect"
    advance
    return true
  else
    return false

def parse_by_name (op : SetOperator) : ParseResult Bool := do
  if features.select_syntax.union_by_name && op == .Union && (← peek_is_keyword .By) then
    advance
    expect_keyword .Name
    return true
  else
    return false

mutual

/-- The climb over set operators. Its operands and rounds each take a token, so `fuel` starts
at the number of tokens left. -/
def parse_set_expr_bp (fuel min_bp : Nat) : ParseResult (SetExpr L) :=
  match fuel with
  | 0 => unexpected "`SELECT`, `TABLE`, `VALUES`, or `(`"
  | fuel + 1 => do
    let grouping ← take_paren_query_grouping
    if grouping && (← peek_is_punct .LParen) then
      set_paren_query_grouping true
    let body ← parse_set_operand G features parse_query keeps
    if ← grouped_query_complete then
      return body
    set_operations fuel min_bp body

/-- The rounds of the climb that begins with `body`. -/
def set_operations (fuel min_bp : Nat) (body : SetExpr L) : ParseResult (SetExpr L) :=
  match fuel with
  | 0 => return body
  | fuel + 1 => do
    match ← peek_set_operator with
    | none => return body
    | some op =>
      let bp := features.set_operation_binding_power op
      if bp.left < min_bp then
        return body
      advance
      let all ← parse_set_quantifier features op
      let by_name ← parse_by_name features op
      let right ← parse_set_expr_bp fuel bp.right
      set_operations fuel min_bp (.SetOperation op all by_name body right)

end

def parse_set_expr : ParseResult (SetExpr L) := do
  parse_set_expr_bp G features parse_query keeps ((← get).tokens.length + 1) 0

/-! ## Queries -/

/-- `FETCH … WITH TIES` under the guards of the dialects that check it while parsing. -/
def check_with_ties (query : Query L) : ParseResult Unit := do
  if features.query_tail_syntax.with_ties_requires_order_by
      && query.limit.any fun limit => limit.with_ties == some true then
    if query.order_by.isEmpty && query.order_by_all.isNone then
      error_at "an ORDER BY clause: `FETCH … WITH TIES` cannot be specified without `ORDER BY`"
    if query.locking.any fun clause => clause.wait == some .SkipLocked then
      error_at "no `SKIP LOCKED`: `FETCH … WITH TIES` and `SKIP LOCKED` cannot be used together"

def parse_query_after_with («with» : Option (With L)) : ParseResult (Query L) := do
  let body ← parse_set_expr G features parse_query keeps
  if ← take_grouped_query_complete then
    return {
      «with», body, order_by := [], order_by_all := none, limit_by := none, limit := none,
      settings := [], format := none, locking := [], pipe_operators := [], for_clause := none }
  let (order_by, order_by_all) ← parse_order_by_clause G features
  let limit_by ← parse_limit_by G features
  let limit ← parse_limit G features
  let settings ← parse_settings G features
  let format ← parse_format G features
  let locking ← parse_locking_clauses G features
  let pipe_operators ← parse_pipe_operators G features
  let for_clause ← parse_for_clause G features
  let query : Query L := {
    «with», body, order_by, order_by_all, limit_by, limit, settings, format, locking,
    pipe_operators, for_clause }
  check_with_ties features query
  return query

def parse_query_inner : ParseResult (Query L) := do
  let grouping ← take_paren_query_grouping
  let clause ← parse_with_clause G features parse_cte_body
  if clause.isNone then
    set_paren_query_grouping grouping
  parse_query_after_with G features parse_query keeps clause

def parse_cte_body_inner : ParseResult (CteBody L) := do
  if features.mutation_syntax.data_modifying_ctes then
    if ← G.peek_starts_dml then
      return .Dml none (← G.parse_dml_statement)
    if ← peek_is_keyword .With then
      let clause ← parse_with_clause G features parse_cte_body
      if ← G.peek_starts_dml then
        return .Dml clause (← G.parse_dml_statement)
      return .Query (← parse_query_after_with G features parse_query keeps clause)
  return .Query (← parse_query)

end Recursion

mutual

/-- A query at `depth` levels under the recursion limit. -/
def parse_query (depth : Nat) : ParseResult (Query L) :=
  match depth with
  | 0 => throw .recursion_limit_exceeded
  | depth + 1 =>
    parse_query_inner G features (parse_query depth) (parse_cte_body depth) keeps_parentheses

def parse_cte_body (depth : Nat) : ParseResult (CteBody L) :=
  match depth with
  | 0 => throw .recursion_limit_exceeded
  | depth + 1 =>
    parse_cte_body_inner G features (parse_query depth) (parse_cte_body depth) keeps_parentheses

end

end squonk.parser
