import Squonk.Ast.Operator

/-!
# Queries

A query is a body under an optional `WITH`, followed by the clauses that close it. The parts
of a query that are not queries (expressions, names, select cores) are leaves here: a grammar
supplies their types.
-/

namespace squonk.ast

/-- The types of the parts a query is built from. -/
structure Leaves where
  Ident : Type
  ObjectName : Type
  Literal : Type
  Expr : Type
  OrderByUsing : Type
  Select : Type
  Values : Type
  Pivot : Type
  Unpivot : Type
  /-- An `INSERT`, `UPDATE`, `DELETE` or `MERGE` that stands as the body of a table expression. -/
  Dml : Type
  PipeOperator : Type

inductive LockStrength | Update | NoKeyUpdate | Share | KeyShare
  deriving DecidableEq

inductive LockWait | NoWait | SkipLocked
  deriving DecidableEq

inductive LockingSpelling | Modern | LockInShareMode
  deriving DecidableEq

inductive LimitSyntax | LimitOffset | CommaOffset | FetchFirst
  deriving DecidableEq

inductive LimitPercent | Keyword | Symbol
  deriving DecidableEq

inductive FetchSpelling | FirstRows | FirstRow | NextRows | NextRow
  deriving DecidableEq

def FetchSpelling.from_axes (next row_singular : Bool) : FetchSpelling :=
  match next, row_singular with
  | false, false => .FirstRows
  | false, true => .FirstRow
  | true, false => .NextRows
  | true, true => .NextRow

inductive ForXmlElements | Plain | XsiNil | Absent
  deriving DecidableEq

inductive ForJsonMode | Auto | Path
  deriving DecidableEq

structure OrderByAll where
  asc : Option Bool
  nulls_first : Option Bool
  deriving DecidableEq

section Clauses

variable (L : Leaves)

structure OrderByExpr where
  expr : L.Expr
  asc : Option Bool
  «using» : Option L.OrderByUsing
  nulls_first : Option Bool

structure LimitBy where
  limit : L.Expr
  offset : Option L.Expr
  «by» : List L.Expr

structure Limit where
  limit : Option L.Expr
  offset : Option L.Expr
  limit_form : LimitSyntax
  with_ties : Option Bool
  percent : Option LimitPercent
  fetch_spelling : FetchSpelling

structure Setting where
  name : L.Ident
  value : L.Expr

structure FormatClause where
  name : L.Ident

structure LockingClause where
  strength : LockStrength
  of : List L.ObjectName
  wait : Option LockWait
  spelling : LockingSpelling

structure ForRoot where
  name : Option L.Literal

inductive ForXmlMode
  | Raw (name : Option L.Literal)
  | Auto
  | Explicit
  | Path (name : Option L.Literal)

inductive ForClause
  | Xml (mode : ForXmlMode L) (elements : Option ForXmlElements) (binary_base64 typed : Bool)
      (root : Option (ForRoot L))
  | Json (mode : ForJsonMode) (root : Option (ForRoot L))
      (include_null_values without_array_wrapper : Bool)

structure CteSearchClause where
  breadth_first : Bool
  columns : List L.Ident
  set_column : L.Ident

structure CteCycleMark where
  value : L.Expr
  default : L.Expr

structure CteCycleClause where
  columns : List L.Ident
  mark_column : L.Ident
  mark : Option (CteCycleMark L)
  path_column : L.Ident

end Clauses

mutual

structure Query (L : Leaves) where
  «with» : Option (With L)
  body : SetExpr L
  order_by : List (OrderByExpr L)
  order_by_all : Option OrderByAll
  limit_by : Option (LimitBy L)
  limit : Option (Limit L)
  settings : List (Setting L)
  format : Option (FormatClause L)
  locking : List (LockingClause L)
  pipe_operators : List L.PipeOperator
  for_clause : Option (ForClause L)

inductive SetExpr (L : Leaves)
  | Select (select : L.Select)
  | Values (values : L.Values)
  | Query (query : Query L)
  | SetOperation (op : SetOperator) (all by_name : Bool) (left right : SetExpr L)
  | Pivot (pivot : L.Pivot)
  | Unpivot (unpivot : L.Unpivot)

structure With (L : Leaves) where
  recursive : Bool
  ctes : List (Cte L)

structure Cte (L : Leaves) where
  name : L.Ident
  columns : List L.Ident
  using_key : Option (List L.Ident)
  materialized : Option Bool
  body : CteBody L
  search : Option (CteSearchClause L)
  cycle : Option (CteCycleClause L)

inductive CteBody (L : Leaves)
  | Query (query : Query L)
  | Dml («with» : Option (With L)) (statement : L.Dml)

end

end squonk.ast
