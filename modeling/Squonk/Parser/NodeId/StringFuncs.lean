import Squonk.Parser.NodeId.Distinct

/-!
# The string forms

`POSITION (.. IN ..)` and `COLLATION FOR (..)` in queries of one expression. Each puts the
`Meta` of its expression into the body too.
-/

open squonk.tokenizer

namespace squonk.parser.node_ids.string_funcs

structure StringFuncForms where
  position_in : Bool
  /-- The needle is a `bit_expr` and the haystack any expression. -/
  position_asymmetric_operands : Bool
  collation_for_expression : Bool

def POSITION : List Char := ['p', 'o', 's', 'i', 't', 'i', 'o', 'n']

def COLLATION : List Char := ['c', 'o', 'l', 'l', 'a', 't', 'i', 'o', 'n']

inductive Proc
  | statement | parse_query | parse_expr | parse_b_expr | parse_bit_expr | parse_expr_bp
  | parse_prefix | parse_position_expr | parse_collation_for | parse_column

/-- The flag tells whether the operators are restricted to those of a `b_expr`. -/
abbrev Reader := Method Bool fun _ : Proc => Unit

namespace Reader

variable {α : Type}

/-- The tokens from here on. -/
def rest : Reader (List Token) := Method.step (.look fun source s _ => source.drop s.pos)

def advance : Reader Unit := Method.step .advance

def unexpected (expected : String) : Reader α := do
  let impossible ← Method.step (.unexpected expected)
  nomatch impossible

def expect (token : Token) (expected : String) : Reader Unit := do
  if (← rest).head? = some token then advance else unexpected expected

def call (entry : Entry Bool) (p : Proc) : Reader (entry.Reply (Unit × List Var)) :=
  Method.invoke entry p []

def node (p : Proc) : Reader (List Var) := do
  let (_, vars) ← call .plain p
  pure vars

/-- A node around what was read. -/
def build (kind : Kind) (fields : List Var) : Reader Var := do
  let node_meta ← Method.step .make_meta
  Method.step (.build kind node_meta fields)

def build_twin (twin : Twin) (body : List Var) : Reader Var := do
  let node_meta ← Method.step .make_meta
  Method.step (.build_twin twin node_meta body [])

end Reader

open Reader

variable (forms : StringFuncForms)

def statement : Reader (Unit × List Var) := do
  let query ← node .parse_query
  let statement ← build .Statement query
  pure ((), [statement])

/-- A `Select` of one item, in its body, in its query. -/
def parse_query : Reader (Unit × List Var) := do
  expect (.keyword .Select) "a query"
  let expr ← node .parse_expr
  let item ← build .Part expr
  let select ← build .Part [item]
  let body ← build .Part [select]
  let query ← build .Query [body]
  pure ((), [query])

/-- The restriction ends in a nested expression. -/
def parse_expr : Reader (Unit × List Var) :=
  call (.with_flags (fun _ => false) fun before _ => before) .parse_expr_bp

def parse_b_expr : Reader (Unit × List Var) :=
  call (.with_flags (fun _ => true) fun before _ => before) .parse_expr_bp

/-- No operator is read here. -/
def parse_expr_bp : Reader (Unit × List Var) := call .guarded Proc.parse_prefix

def parse_prefix : Reader (Unit × List Var) := do
  match ← rest with
  | .number _ :: _ => do
    Reader.advance
    let literal ← build .Part []
    let expr ← build .Expr [literal]
    pure ((), [expr])
  | .punctuation .LParen :: _ => do
    Reader.advance
    let expr ← node .parse_expr
    expect (.punctuation .RParen) "`)`"
    pure ((), expr)
  | .word text :: .punctuation .LParen :: _ =>
    if forms.position_in ∧ text = POSITION then call .plain .parse_position_expr
    else Reader.unexpected "an expression"
  | .word text :: .keyword .For :: .punctuation .LParen :: _ =>
    if forms.collation_for_expression ∧ text = COLLATION then
      call .plain .parse_collation_for
    else call .plain .parse_column
  | .word _ :: _ => call .plain .parse_column
  | _ => Reader.unexpected "an expression"

def parse_column : Reader (Unit × List Var) := do
  Reader.advance
  let ident ← build .Part []
  let expr ← build .Expr [ident]
  pure ((), [expr])

def parse_position_expr : Reader (Unit × List Var) := do
  Reader.advance -- POSITION
  expect (.punctuation .LParen) "`(` after `POSITION`"
  let asymmetric := forms.position_asymmetric_operands
  let substr ← if asymmetric then node .parse_bit_expr else node .parse_b_expr
  expect (.keyword .In) "`IN`"
  let string ← if asymmetric then node .parse_expr else node .parse_b_expr
  expect (.punctuation .RParen) "`)` to close `POSITION`"
  let expr ← build_twin .Position (substr ++ string)
  pure ((), [expr])

def parse_collation_for : Reader (Unit × List Var) := do
  Reader.advance -- COLLATION
  expect (.keyword .For) "`FOR`"
  expect (.punctuation .LParen) "`(` after `COLLATION FOR`"
  let expr ← node .parse_expr
  expect (.punctuation .RParen) "`)` to close `COLLATION FOR`"
  let expr ← build_twin .CollationFor expr
  pure ((), [expr])

def grammar : Grammar where
  Flags := Bool
  Proc := Proc
  Ret _ := Unit
  body
    | .statement => statement
    | .parse_query => parse_query
    | .parse_expr => parse_expr
    | .parse_b_expr | .parse_bit_expr => parse_b_expr
    | .parse_expr_bp => parse_expr_bp
    | Proc.parse_prefix => parse_prefix forms
    | .parse_position_expr => parse_position_expr forms
    | .parse_collation_for => parse_collation_for
    | .parse_column => parse_column
  statement := .statement
  init := false

def PostgreSql : StringFuncForms := ⟨true, false, true⟩

/-- `SELECT POSITION(a IN b)` -/
def select_position : List Token :=
  [.keyword .Select, .word POSITION, .punctuation .LParen, .word ['a'],
    .keyword .In, .word ['b'], .punctuation .RParen]

/-- `SELECT (a); SELECT 1` -/
def select_group : List Token :=
  [.keyword .Select, .punctuation .LParen, .word ['a'], .punctuation .RParen,
    .punctuation .Semicolon, .keyword .Select, .number ['1']]

/-- The `Meta` that is made when `count` others were. -/
def numbered (count : Fin 16) : Meta :=
  ⟨⟨count.val + 1, Nat.succ_ne_zero _, by omega⟩⟩

def select_position_tree : List Node :=
  [.single .Statement (numbered 9) [.single .Query (numbered 8) [.single .Part (numbered 7)
    [.single .Part (numbered 6) [.single .Part (numbered 5)
      [.twin .Position (numbered 4)
        [.single .Expr (numbered 1) [.single .Part (numbered 0) []],
          .single .Expr (numbered 3) [.single .Part (numbered 2) []]] []]]]]]]

def select_group_tree : List Node :=
  [.single .Statement (numbered 6) [.single .Query (numbered 5) [.single .Part (numbered 4)
      [.single .Part (numbered 3) [.single .Part (numbered 2)
        [.single .Expr (numbered 1) [.single .Part (numbered 0) []]]]]]],
    .single .Statement (numbered 13) [.single .Query (numbered 12) [.single .Part (numbered 11)
      [.single .Part (numbered 10) [.single .Part (numbered 9)
        [.single .Expr (numbered 8) [.single .Part (numbered 7) []]]]]]]]

end squonk.parser.node_ids.string_funcs
