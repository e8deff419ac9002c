import Squonk.Ast.Literal.Number
import Squonk.Parser.Clause.ObjectName

/-!
# `SET`, `RESET` and `SHOW`

The statements of a session. A value is tested for the words that stand for no value before it is
read, and a dialect with variable assignments reads a list of them in place of one parameter. The
grammar of expressions is a parameter.
-/

open squonk.ast squonk.tokenizer squonk.dialect listing listing.Reader

namespace squonk.parser.clause.session

/-- The gates of the statements. Where a dialect has variables, `@name` is one token and no
placeholder. -/
structure SessionSyntax where
  variable_assignment : Bool
  user_variables : Bool
  resource_group : Bool
  reset_scope : Bool
  show_verbose : Bool
  set_value_reserved_words : List String
  set_value_on_keyword : Bool
  set_value_null_keyword : Bool
  collection_literals : Bool
  parse_float_as_decimal : Bool
  transaction_isolation_mode : Bool
  transaction_access_mode : Bool
  transaction_deferrable_mode : Bool
  transaction_multiple_modes : Bool
  transaction_modes_require_commas : Bool
  transaction_modes_reject_duplicates : Bool
  reserved_as_label : List String
  deriving DecidableEq

def SessionSyntax.MYSQL : SessionSyntax where
  variable_assignment := true
  user_variables := true
  resource_group := true
  reset_scope := false
  show_verbose := false
  set_value_reserved_words := []
  set_value_on_keyword := false
  set_value_null_keyword := false
  collection_literals := false
  parse_float_as_decimal := false
  transaction_isolation_mode := true
  transaction_access_mode := true
  transaction_deferrable_mode := false
  transaction_multiple_modes := true
  transaction_modes_require_commas := true
  transaction_modes_reject_duplicates := true
  reserved_as_label := []

/-! ## Statements -/

inductive SetScope | Session | Local | Global
  deriving DecidableEq

/-- How an assignment was spelled. -/
inductive SetAssignment | Equals | To | ColonEquals
  deriving DecidableEq

/-- A value without an expression grammar. A sign is part of its number. -/
inductive SetParameterValue
  | Number (sign : Option Operator) (number : List Char)
  | String (raw : List Char)
  | Parameter (text : List Char)
  | Name (name : Ident)
  | List (values : List SetParameterValue)

inductive SetValue
  | Default
  | Values (values : List SetParameterValue)

inductive SpecialSetValue
  | Default | Local | None
  | Value (value : SetParameterValue)

inductive SetNamesValue
  | Default
  | Charset (charset : SetParameterValue) (collation : Option Ident)

inductive SetCharacterSetValue
  | Default
  | Charset (charset : SetParameterValue)

inductive CharacterSetKeyword | CharacterSet | Charset
  deriving DecidableEq

inductive ConstraintsTarget
  | All
  | Names (names : List ObjectName)

inductive ConstraintCheckTime | Deferred | Immediate
  deriving DecidableEq

inductive IsolationLevel | ReadUncommitted | ReadCommitted | RepeatableRead | Serializable
  deriving DecidableEq

inductive TransactionAccessMode | ReadOnly | ReadWrite
  deriving DecidableEq

inductive TransactionMode
  | IsolationLevel (level : IsolationLevel)
  | AccessMode (access : TransactionAccessMode)
  | Deferrable (deferrable : Bool)
  deriving DecidableEq

inductive ConfigParameter
  | All
  | Named (name : ObjectName)

inductive SystemVariableScopeKind | Global | Session | Local | Persist | PersistOnly
  deriving DecidableEq

inductive SystemVariableScope
  | Implicit
  | Keyword (kind : SystemVariableScopeKind)
  | AtAt
  | AtAtScoped (kind : SystemVariableScopeKind)
  deriving DecidableEq

inductive SetVariableKeyword | On | All | Binary | Row | System
  deriving DecidableEq

inductive SetVariableValue (E : Type)
  | Default
  | Keyword (keyword : SetVariableKeyword)
  | Expr (expr : E)

inductive SetVariableAssignment (E : Type)
  | SystemVariable (scope : SystemVariableScope) (name : ObjectName) (assignment : SetAssignment)
      (value : SetVariableValue E)
  | UserVariable (name : Name) (assignment : SetAssignment) (value : E)

inductive SessionStatement (E : Type)
  | Set (scope : Option SetScope) (name : ObjectName) (assignment : SetAssignment)
      (value : SetValue)
  | SetTimeZone (scope : Option SetScope) (value : SpecialSetValue)
  | SetRole (scope : Option SetScope) (role : SpecialSetValue)
  | SetSessionAuthorization (scope : Option SetScope) (user : SpecialSetValue)
  | SetConstraints (constraints : ConstraintsTarget) (check_time : ConstraintCheckTime)
  | SetNames (value : SetNamesValue)
  | SetSessionCharacteristics (modes : List TransactionMode)
  | Reset (scope : Option SetScope) (target : ConfigParameter)
  | Show (target : ConfigParameter) (verbose : Bool)
  | SetVariables (assignments : List (SetVariableAssignment E))
  | SetCharacterSet (keyword : CharacterSetKeyword) (value : SetCharacterSetValue)
  | SetResourceGroup (name : Ident) (thread_ids : Option (List (List Char)))

variable {E : Type}

/-! ## Values -/

def peek_is_punct (punct : Punctuation) (ts : List Token) : Bool :=
  ts.head? == some (.punctuation punct)

def peek_is_op (op : Operator) (ts : List Token) : Bool := ts.head? == some (.operator op)

/-- The token is a variable, `@name` or `@@name`. -/
def is_variable (syntaxes : SessionSyntax) : Token → Bool
  | .parameter text =>
    text.take 2 == ['@', '@'] || syntaxes.user_variables && text.head? == some '@'
  | _ => false

/-- A plain, escape or Unicode string, or one in dollars. -/
def string_literal_is_sconst : List Char → Bool
  | c :: '\'' :: _ => !("BbXxNn_".toList.contains c)
  | '_' :: _ => false
  | _ => true

section
variable (syntaxes : SessionSyntax)

/-- A value that is one token. -/
def set_parameter_token (t : Token) : Option SetParameterValue :=
  match t with
  | .number text => some (.Number none text)
  | .string raw => if string_literal_is_sconst raw then some (.String raw) else none
  | .parameter text => if is_variable syntaxes t then none else some (.Parameter text)
  | _ => (label t).map SetParameterValue.Name

def number_token : Token → Option (List Char)
  | .number text => some text
  | _ => none

/-- The sign in front of a number. -/
def sign_token : Token → Option Operator
  | .operator .Minus => some .Minus
  | .operator .Plus => some .Plus
  | _ => none

/-- `fuel` bounds how deep lists stand in lists. -/
def parse_set_parameter_value : Nat → ParseResult SetParameterValue
  | 0 => fail ""
  | fuel + 1 => do
    if syntaxes.collection_literals && (← look (peek_is_punct .LBracket)) then
      expect_punct .LBracket "`[` to open the SET list value"
      let values ← (do
        if ← look (peek_is_punct .RBracket) then
          return []
        else
          parse_comma_separated (parse_set_parameter_value fuel))
      expect_punct .RBracket "`]` to close the SET list value"
      return .List values
    else
      match ← optional_token sign_token with
      | some sign =>
        return .Number (some sign) (← token number_token "a number after a sign in a SET value")
      | none => token (set_parameter_token syntaxes) "a SET value"

def token_is_set_bareword_value (t : Token) : Bool :=
  !syntaxes.set_value_reserved_words.any fun word => token_is_contextual_keyword word t

/-- A reserved word that is a value nevertheless. -/
def token_is_set_special_keyword_value (t : Token) : Bool :=
  token_is_contextual_keyword "true" t || token_is_contextual_keyword "false" t ||
    syntaxes.set_value_on_keyword && token_is_contextual_keyword "on" t ||
    syntaxes.set_value_null_keyword && token_is_contextual_keyword "null" t

/-- A word that is no value of a parameter. -/
def set_value_refused (t : Token) : Bool :=
  (spelled t).isSome && !token_is_set_bareword_value syntaxes t &&
    !token_is_set_special_keyword_value syntaxes t

def parse_generic_set_parameter_value (fuel : Nat) : ParseResult SetParameterValue := do
  if ← look fun ts => ts.head?.any (set_value_refused syntaxes) then
    fail "a non-reserved word or literal as a SET value"
  else
    parse_set_parameter_value syntaxes fuel

def parse_set_value (fuel : Nat) : ParseResult SetValue := do
  if ← eat_contextual_keyword "default" then
    return .Default
  else
    return .Values (← parse_comma_separated (parse_generic_set_parameter_value syntaxes fuel))

/-- The words that stand for no value. -/
def sentinels : List (String × SpecialSetValue) :=
  [("default", .Default), ("local", .Local), ("none", .None)]

/-- A word of `words` is tested for before a value is read. -/
def parse_special_set_value (words : List String) (fuel : Nat) : ParseResult SpecialSetValue := do
  match ← optional_token (table_value (sentinels.filter fun entry => words.contains entry.1)) with
  | some sentinel => return sentinel
  | none => return .Value (← parse_set_parameter_value syntaxes fuel)

end

def expect_set_assignment : ParseResult SetAssignment := do
  if ← look (peek_is_op .Eq) then
    advance
    return .Equals
  else if ← eat_contextual_keyword "to" then
    return .To
  else
    fail "`=` or `TO` in a `SET` statement"

/-! ## Transaction modes -/

def parse_isolation_level : ParseResult IsolationLevel := do
  if ← eat_contextual_keyword "read" then
    if ← eat_contextual_keyword "uncommitted" then
      return .ReadUncommitted
    else if ← eat_contextual_keyword "committed" then
      return .ReadCommitted
    else
      fail "`UNCOMMITTED` or `COMMITTED` after `READ`"
  else if ← eat_contextual_keyword "repeatable" then
    expect_contextual_keyword "read"
    return .RepeatableRead
  else if ← eat_contextual_keyword "serializable" then
    return .Serializable
  else
    fail "an isolation level"

/-- A word that a gate opens. -/
def eat_gated (gate : Bool) (word : String) : ParseResult Bool :=
  if gate then eat_contextual_keyword word else return false

section
variable (syntaxes : SessionSyntax)

def parse_optional_transaction_mode : ParseResult (Option TransactionMode) := do
  if ← eat_gated syntaxes.transaction_isolation_mode "isolation" then
    expect_contextual_keyword "level"
    return some (.IsolationLevel (← parse_isolation_level))
  else if ← eat_gated syntaxes.transaction_access_mode "read" then
    if ← eat_contextual_keyword "only" then
      return some (.AccessMode .ReadOnly)
    else if ← eat_contextual_keyword "write" then
      return some (.AccessMode .ReadWrite)
    else
      fail "`ONLY` or `WRITE` after `READ`"
  else if ← eat_gated syntaxes.transaction_deferrable_mode "deferrable" then
    return some (.Deferrable true)
  else if ← eat_gated syntaxes.transaction_deferrable_mode "not" then
    expect_contextual_keyword "deferrable"
    return some (.Deferrable false)
  else
    return none

def same_transaction_mode_kind : TransactionMode → TransactionMode → Bool
  | .IsolationLevel _, .IsolationLevel _ => true
  | .AccessMode _, .AccessMode _ => true
  | .Deferrable _, .Deferrable _ => true
  | _, _ => false

/-- The modes behind `modes`. A comma must have one behind it, and need not stand between two. -/
def transaction_modes_loop (modes : List TransactionMode) (mode_required : Bool) :
    Nat → ParseResult (List TransactionMode)
  | 0 => return modes
  | n + 1 => do
    match ← parse_optional_transaction_mode syntaxes with
    | none => if mode_required then fail "a transaction mode after `,`" else return modes
    | some mode =>
      if syntaxes.transaction_modes_reject_duplicates &&
          modes.any fun existing => same_transaction_mode_kind existing mode then
        fail "a transaction mode that has not already appeared"
      else if !syntaxes.transaction_multiple_modes then
        return modes ++ [mode]
      else
        let comma ← eat_punct .Comma
        if syntaxes.transaction_modes_require_commas && !comma then
          return modes ++ [mode]
        else
          transaction_modes_loop (modes ++ [mode]) comma n

/-- Every mode takes a token, so the tokens bound the turns. -/
def parse_transaction_modes : ParseResult (List TransactionMode) := do
  transaction_modes_loop syntaxes [] false ((← look List.length) + 1)

end

/-! ## Variable assignments -/

def system_variable_scope_kinds : List (String × SystemVariableScopeKind) :=
  [("global", .Global), ("session", .Session), ("local", .Local), ("persist", .Persist),
   ("persist_only", .PersistOnly)]

/-- The scope that a word in front of a dot names, in any case. -/
def system_variable_scope_kind (word : List Char) : Option SystemVariableScopeKind :=
  table_value system_variable_scope_kinds (.word word)

def eat_system_variable_scope_keyword : ParseResult (Option SystemVariableScopeKind) :=
  optional_token (table_value system_variable_scope_kinds)

def expect_mysql_set_assignment : ParseResult SetAssignment := do
  if ← look (peek_is_op .Eq) then
    advance
    return .Equals
  else if ← look (peek_is_op .ColonEquals) then
    advance
    return .ColonEquals
  else
    fail "`=` or `:=` in a MySQL SET assignment"

def set_variable_keywords : List (String × SetVariableKeyword) :=
  [("on", .On), ("all", .All), ("binary", .Binary), ("row", .Row), ("system", .System)]

/-- The parts of a name between its dots. -/
def object_name_from_dotted (text : List Char) : ObjectName :=
  (text.splitOn '.').map fun part => .ident (.Word part)

/-- The scope and the name behind `@@`. -/
def at_at_variable (text : List Char) : SystemVariableScope × ObjectName :=
  match system_variable_scope_kind (text.takeWhile (· != '.')), text.dropWhile (· != '.') with
  | some kind, '.' :: tail => (.AtAtScoped kind, object_name_from_dotted tail)
  | _, _ => (.AtAt, object_name_from_dotted text)

section
variable (features : FeatureSet) (syntaxes : SessionSyntax) (parse_expr : ParseResult E)

/-- A keyword that stands for a name is a word like any other. -/
def unquoted : Ident → Ident
  | .Keyword keyword => .Word keyword.as_str.toList
  | name => name

/-- A string constant or an identifier. -/
def ident_or_text (t : Token) : Option Name :=
  (string_alias t).or ((expr.column_name features t).map fun name => .ident (unquoted name))

def parse_set_variable_value : ParseResult (SetVariableValue E) := do
  if ← eat_contextual_keyword "default" then
    return .Default
  else
    match ← optional_token (table_value set_variable_keywords) with
    | some keyword => return .Keyword keyword
    | none => return .Expr (← parse_expr)

def finish_user_variable (name : Name) : ParseResult (SetVariableAssignment E) := do
  let assignment ← expect_mysql_set_assignment
  return .UserVariable name assignment (← parse_expr)

def finish_system_variable (scope : SystemVariableScope) (name : ObjectName) :
    ParseResult (SetVariableAssignment E) := do
  let assignment ← expect_mysql_set_assignment
  return .SystemVariable scope name assignment (← parse_set_variable_value parse_expr)

def parse_set_lvalue_name : ParseResult ObjectName := do
  if ← look fun ts => peek_is_contextual_keyword "default" ts && peek_is_punct .Dot ts.tail then
    expect_contextual_keyword "default"
    expect_punct .Dot "`.` after `DEFAULT` in a SET variable name"
    let second ← parse_ident features
    return [.ident (.Keyword .Default), .ident second]
  else
    parse_object_name features syntaxes.reserved_as_label

/-- The text of a variable, without its first `@`. -/
def variable_text (t : Token) : Option (List Char) :=
  match t with
  | .parameter text => if is_variable syntaxes t then some text.tail else none
  | _ => none

/-- Only a dialect with user variables has an `@` of its own. -/
def eat_at : ParseResult Bool := if syntaxes.user_variables then eat_punct .At else return false

def parse_mysql_set_item : ParseResult (SetVariableAssignment E) := do
  if ← eat_at syntaxes then
    let name ← token (ident_or_text features) "an identifier"
    finish_user_variable parse_expr name
  else
    match ← optional_token (variable_text syntaxes) with
    | some ('@' :: text) =>
      let (scope, name) := at_at_variable text
      finish_system_variable parse_expr scope name
    | some text => finish_user_variable parse_expr (.ident (.Word text))
    | none =>
      match ← eat_system_variable_scope_keyword with
      | some kind =>
        let name ← parse_set_lvalue_name features syntaxes
        finish_system_variable parse_expr (.Keyword kind) name
      | none =>
        let name ← parse_set_lvalue_name features syntaxes
        finish_system_variable parse_expr .Implicit name

def parse_mysql_set_variables : ParseResult (SessionStatement E) := do
  return .SetVariables (← parse_comma_separated (parse_mysql_set_item features syntaxes parse_expr))

end

/-! ## Reading statements -/

section
variable (features : FeatureSet) (syntaxes : SessionSyntax) (parse_expr : ParseResult E)

/-- Two words in front. -/
def peek_words (first second : String) (ts : List Token) : Bool :=
  peek_is_contextual_keyword first ts && peek_nth_is_contextual_keyword 1 second ts

/-- `SESSION` is no scope in front of `AUTHORIZATION`. -/
def parse_optional_set_scope : ParseResult (Option SetScope) := do
  if ← eat_contextual_keyword "local" then
    return some .Local
  else if ← look fun ts => peek_is_contextual_keyword "session" ts &&
      !peek_nth_is_contextual_keyword 1 "authorization" ts then
    expect_contextual_keyword "session"
    return some .Session
  else
    return none

def parse_set_time_zone (fuel : Nat) (scope : Option SetScope) :
    ParseResult (SessionStatement E) := do
  expect_contextual_keyword "time"
  expect_contextual_keyword "zone"
  return .SetTimeZone scope (← parse_special_set_value syntaxes ["local", "default"] fuel)

def parse_set_role (fuel : Nat) (scope : Option SetScope) : ParseResult (SessionStatement E) := do
  expect_contextual_keyword "role"
  return .SetRole scope (← parse_special_set_value syntaxes ["none"] fuel)

def parse_set_session_authorization (fuel : Nat) (scope : Option SetScope) :
    ParseResult (SessionStatement E) := do
  expect_contextual_keyword "session"
  expect_contextual_keyword "authorization"
  return .SetSessionAuthorization scope (← parse_special_set_value syntaxes ["default"] fuel)

/-- The digits of an integer constant. -/
def unsigned_integer (t : Token) : Option (List Char) :=
  match t with
  | .number text =>
    if literal.number_literal_kind text syntaxes.parse_float_as_decimal = .Integer then some text
    else none
  | _ => none

def parse_thread_id : ParseResult (List Char) :=
  token (unsigned_integer syntaxes) "an integer literal after `FOR`"

/-- Another thread stands behind a comma, and needs none. -/
def thread_id_turn : ParseResult (Option (List Char)) := do
  let ate_comma ← eat_punct .Comma
  let next_is_number ← look fun ts => ts.head?.any fun t => (number_token t).isSome
  if !ate_comma && !next_is_number then
    return none
  else
    return some (← parse_thread_id syntaxes)

def parse_thread_ids : ParseResult (List (List Char)) := do
  let first ← parse_thread_id syntaxes
  return first :: (← many (thread_id_turn syntaxes))

def parse_set_resource_group : ParseResult (SessionStatement E) := do
  expect_contextual_keyword "resource"
  expect_contextual_keyword "group"
  let name ← parse_ident features
  if ← eat_contextual_keyword "for" then
    return .SetResourceGroup name (some (← parse_thread_ids syntaxes))
  else
    return .SetResourceGroup name none

def parse_constraints_target : ParseResult ConstraintsTarget := do
  if ← eat_contextual_keyword "all" then
    return .All
  else
    return .Names
      (← parse_comma_separated (parse_object_name features syntaxes.reserved_as_label))

def check_times : List (String × ConstraintCheckTime) :=
  [("deferred", .Deferred), ("immediate", .Immediate)]

def parse_constraint_check_time : ParseResult ConstraintCheckTime :=
  token (table_value check_times) "`DEFERRED` or `IMMEDIATE` after the constraint list"

def parse_set_constraints : ParseResult (SessionStatement E) := do
  expect_contextual_keyword "constraints"
  let constraints ← parse_constraints_target features syntaxes
  let check_time ← parse_constraint_check_time
  return .SetConstraints constraints check_time

def parse_set_names_value (fuel : Nat) : ParseResult SetNamesValue := do
  if ← eat_contextual_keyword "default" then
    return .Default
  else
    let charset ← parse_set_parameter_value syntaxes fuel
    if ← eat_contextual_keyword "collate" then
      return .Charset charset (some (← parse_ident features))
    else
      return .Charset charset none

/-- Where the dialect has no assignments, `SET NAMES` alone is the default. -/
def parse_set_names (fuel : Nat) : ParseResult (SessionStatement E) := do
  expect_contextual_keyword "names"
  if ← look fun ts => ts.head?.all (· == .punctuation .Semicolon) then
    if syntaxes.variable_assignment then
      fail "a character set name or DEFAULT after SET NAMES"
    else
      return .SetNames .Default
  else
    return .SetNames (← parse_set_names_value features syntaxes fuel)

def parse_set_session_characteristics : ParseResult (SessionStatement E) := do
  expect_contextual_keyword "session"
  expect_contextual_keyword "characteristics"
  expect_contextual_keyword "as"
  expect_contextual_keyword "transaction"
  let modes ← parse_transaction_modes syntaxes
  if modes.isEmpty then
    fail "a transaction mode after `SET SESSION CHARACTERISTICS AS TRANSACTION`"
  else
    return .SetSessionCharacteristics modes

def parse_set_character_set (fuel : Nat) (keyword : CharacterSetKeyword) :
    ParseResult (SessionStatement E) := do
  if ← eat_contextual_keyword "default" then
    return .SetCharacterSet keyword .Default
  else
    return .SetCharacterSet keyword (.Charset (← parse_set_parameter_value syntaxes fuel))

/-- The statements of a dialect with variable assignments. -/
def parse_mysql_set (fuel : Nat) : ParseResult (SessionStatement E) := do
  if ← eat_contextual_keyword "charset" then
    parse_set_character_set syntaxes fuel .Charset
  else if ← look (peek_words "character" "set") then
    expect_contextual_keyword "character"
    expect_contextual_keyword "set"
    parse_set_character_set syntaxes fuel .CharacterSet
  else if ← look (peek_is_contextual_keyword "role") then
    parse_set_role syntaxes fuel none
  else
    parse_mysql_set_variables features syntaxes parse_expr

/-- One parameter, behind the scope of a statement. -/
def parse_scoped_set (fuel : Nat) (scope : Option SetScope) : ParseResult (SessionStatement E) := do
  if ← look (peek_words "time" "zone") then
    parse_set_time_zone syntaxes fuel scope
  else if ← look (peek_is_contextual_keyword "role") then
    parse_set_role syntaxes fuel scope
  else if ← look (peek_words "session" "authorization") then
    parse_set_session_authorization syntaxes fuel scope
  else
    let name ← parse_object_name features syntaxes.reserved_as_label
    let assignment ← expect_set_assignment
    return .Set scope name assignment (← parse_set_value syntaxes fuel)

/-- A statement behind its `SET`. -/
def parse_set (fuel : Nat) : ParseResult (SessionStatement E) := do
  if ← look (peek_is_contextual_keyword "constraints") then
    parse_set_constraints features syntaxes
  else if ← look (peek_is_contextual_keyword "names") then
    parse_set_names features syntaxes fuel
  else if ← look (peek_words "session" "characteristics") then
    parse_set_session_characteristics syntaxes
  else if ← look fun ts => syntaxes.resource_group && peek_words "resource" "group" ts then
    parse_set_resource_group features syntaxes
  else if syntaxes.variable_assignment then
    parse_mysql_set features syntaxes parse_expr fuel
  else
    parse_scoped_set features syntaxes fuel (← parse_optional_set_scope)

def reset_scopes : List (String × SetScope) :=
  [("session", .Session), ("local", .Local), ("global", .Global)]

/-- A scope is one only in front of a name. -/
def parse_optional_reset_scope : ParseResult (Option SetScope) := do
  if ← look fun ts => syntaxes.reset_scope &&
      ts.tail.head?.any fun t => (expr.column_name features t).isSome then
    optional_token (table_value reset_scopes)
  else
    return none

def parse_config_parameter : ParseResult ConfigParameter := do
  if ← eat_contextual_keyword "all" then
    return .All
  else
    return .Named (← parse_object_name features syntaxes.reserved_as_label)

def parse_session_statement (fuel : Nat) : ParseResult (SessionStatement E) := do
  if ← eat_contextual_keyword "set" then
    parse_set features syntaxes parse_expr fuel
  else if ← eat_contextual_keyword "reset" then
    let scope ← parse_optional_reset_scope features syntaxes
    return .Reset scope (← parse_config_parameter features syntaxes)
  else if ← eat_contextual_keyword "show" then
    let target ← parse_config_parameter features syntaxes
    return .Show target (← eat_gated syntaxes.show_verbose "verbose")
  else
    fail "a session statement"

end

/-! ## Writing -/

mutual

def SetParameterValue.tokens : SetParameterValue → List Token
  | .Number sign number => sign.toList.map Token.operator ++ [.number number]
  | .String raw => [.string raw]
  | .Parameter text => [.parameter text]
  | .Name name => [expr.ident_token name]
  | .List values => [.punctuation .LBracket] ++ list_tokens values ++ [.punctuation .RBracket]

/-- The values of a list with their commas. -/
def list_tokens : List SetParameterValue → List Token
  | [] => []
  | value :: values => value.tokens ++ list_tail_tokens values

def list_tail_tokens : List SetParameterValue → List Token
  | [] => []
  | value :: values => .comma :: (value.tokens ++ list_tail_tokens values)

end

def SetValue.tokens : SetValue → List Token
  | .Default => [written "default"]
  | .Values values => comma_list SetParameterValue.tokens values

def SpecialSetValue.tokens : SpecialSetValue → List Token
  | .Default => [written "default"]
  | .Local => [written "local"]
  | .None => [written "none"]
  | .Value value => value.tokens

def SetNamesValue.tokens : SetNamesValue → List Token
  | .Default => [written "default"]
  | .Charset charset collation =>
    charset.tokens ++
      collation.toList.flatMap fun collation => [written "collate", expr.ident_token collation]

def SetCharacterSetValue.tokens : SetCharacterSetValue → List Token
  | .Default => [written "default"]
  | .Charset charset => charset.tokens

def CharacterSetKeyword.words : CharacterSetKeyword → List String
  | .CharacterSet => ["character", "set"]
  | .Charset => ["charset"]

def SetScope.word : SetScope → String
  | .Session => "session" | .Local => "local" | .Global => "global"

def set_scope_tokens (scope : Option SetScope) : List Token :=
  scope.toList.map fun scope => written scope.word

def ConstraintsTarget.tokens : ConstraintsTarget → List Token
  | .All => [written "all"]
  | .Names names => comma_list object_name_tokens names

def ConstraintCheckTime.word : ConstraintCheckTime → String
  | .Deferred => "deferred" | .Immediate => "immediate"

def IsolationLevel.words : IsolationLevel → List String
  | .ReadUncommitted => ["read", "uncommitted"] | .ReadCommitted => ["read", "committed"]
  | .RepeatableRead => ["repeatable", "read"] | .Serializable => ["serializable"]

def TransactionMode.words : TransactionMode → List String
  | .IsolationLevel level => ["isolation", "level"] ++ level.words
  | .AccessMode .ReadOnly => ["read", "only"]
  | .AccessMode .ReadWrite => ["read", "write"]
  | .Deferrable true => ["deferrable"]
  | .Deferrable false => ["not", "deferrable"]

def TransactionMode.tokens (self : TransactionMode) : List Token := self.words.map written

def ConfigParameter.tokens : ConfigParameter → List Token
  | .All => [written "all"]
  | .Named name => object_name_tokens name

def SystemVariableScopeKind.word : SystemVariableScopeKind → String
  | .Global => "global" | .Session => "session" | .Local => "local" | .Persist => "persist"
  | .PersistOnly => "persist_only"

def SetVariableKeyword.word : SetVariableKeyword → String
  | .On => "on" | .All => "all" | .Binary => "binary" | .Row => "row" | .System => "system"

/-- The text of a name in a variable. -/
def name_text : Name → List Char
  | .ident (.Word text) => text
  | .ident (.Quoted text) => text
  | .ident (.Keyword keyword) => keyword.as_str.toList
  | .text raw => raw

def dotted_text (name : ObjectName) : List Char := ['.'].intercalate (name.map name_text)

/-- A name behind `@` is one token with it, unless it is quoted. -/
def user_variable_tokens : Name → List Token
  | .ident (.Word text) => [.parameter ('@' :: text)]
  | name => [.punctuation .At, name.token]

def SystemVariableScope.tokens (name : ObjectName) : SystemVariableScope → List Token
  | .Implicit => object_name_tokens name
  | .Keyword kind => [written kind.word] ++ object_name_tokens name
  | .AtAt => [.parameter ("@@".toList ++ dotted_text name)]
  | .AtAtScoped kind =>
    [.parameter ("@@".toList ++ kind.word.toList ++ ['.'] ++ dotted_text name)]

section
variable (write_expr : E → List Token)

def SetVariableValue.tokens : SetVariableValue E → List Token
  | .Default => [written "default"]
  | .Keyword keyword => [written keyword.word]
  | .Expr expr => write_expr expr

/-- An assignment is written with `=`. -/
def SetVariableAssignment.tokens : SetVariableAssignment E → List Token
  | .SystemVariable scope name _ value =>
    scope.tokens name ++ [.operator .Eq] ++ value.tokens write_expr
  | .UserVariable name _ value => user_variable_tokens name ++ [.operator .Eq] ++ write_expr value

def SessionStatement.tokens : SessionStatement E → List Token
  | .Set scope name _ value =>
    [written "set"] ++ set_scope_tokens scope ++ object_name_tokens name ++ [written "to"] ++
      value.tokens
  | .SetTimeZone scope value =>
    [written "set"] ++ set_scope_tokens scope ++ [written "time", written "zone"] ++ value.tokens
  | .SetRole scope role =>
    [written "set"] ++ set_scope_tokens scope ++ [written "role"] ++ role.tokens
  | .SetSessionAuthorization scope user =>
    [written "set"] ++ set_scope_tokens scope ++ [written "session", written "authorization"] ++
      user.tokens
  | .SetConstraints constraints check_time =>
    [written "set", written "constraints"] ++ constraints.tokens ++ [written check_time.word]
  | .SetNames value => [written "set", written "names"] ++ value.tokens
  | .SetSessionCharacteristics modes =>
    [written "set", written "session", written "characteristics", written "as",
      written "transaction"] ++ comma_list TransactionMode.tokens modes
  | .Reset scope target => [written "reset"] ++ set_scope_tokens scope ++ target.tokens
  | .Show target verbose =>
    [written "show"] ++ target.tokens ++ if verbose then [written "verbose"] else []
  | .SetVariables assignments =>
    [written "set"] ++ comma_list (SetVariableAssignment.tokens write_expr) assignments
  | .SetCharacterSet keyword value =>
    [written "set"] ++ keyword.words.map written ++ value.tokens
  | .SetResourceGroup name thread_ids =>
    [written "set", written "resource", written "group", expr.ident_token name] ++
      thread_ids.toList.flatMap fun ids =>
        [written "for"] ++ comma_list (fun id => [.number id]) ids

end

end squonk.parser.clause.session
