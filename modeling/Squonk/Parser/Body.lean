import Mathlib
import Squonk.Tokenizer.Lexeme

/-!
# Stored-program bodies

Blocks with their declarations, flow control and cursor operations. The labels of the open blocks
and loops are a stack that every method is handed and that `LEAVE`, `ITERATE`, a further label and
an end label are tested against.
-/

open squonk.tokenizer squonk.tokenizer.scan

namespace squonk.parser.body

/-! ## Tokens, labels and the tree -/

structure Token where
  kind : TokenKind
  text : List Char
  deriving DecidableEq

/-- The tokens ahead. `none` stands where the source does not scan. -/
abbrev Stream := List (Option Token)

/-- The text an identifier is spelled with, and the name that is left without its quotes. -/
structure Ident where
  text : List Char
  name : List Char
  deriving DecidableEq

inductive LabelKind
  | Loop | Block
  deriving DecidableEq

structure LabelFrame where
  label : Ident
  kind : LabelKind
  deriving DecidableEq

inductive HandlerAction
  | Continue | Exit | Undo
  deriving DecidableEq

/-- What another grammar has read. -/
abbrev Part := List Token

inductive ConditionValue
  | SqlState (value_keyword : Bool) (sqlstate : Part)
  | ErrorCode (code : Part)

inductive HandlerCondition
  | SqlState (value_keyword : Bool) (sqlstate : Part)
  | SqlWarning | SqlException | NotFound
  | ErrorCode (code : Part)
  | ConditionName (name : Ident)

mutual

inductive Statement
  | Compound (label : Option Ident) (declarations : List Declaration) (body : List Statement)
      (end_label : Option Ident)
  | If (branches : List ConditionalBranch) (else_body : Option (List Statement))
  | Case (operand : Option Part) (when_branches : List ConditionalBranch)
      (else_body : Option (List Statement))
  | Loop (label : Option Ident) (body : List Statement) (end_label : Option Ident)
  | While (label : Option Ident) (condition : Part) (body : List Statement)
      (end_label : Option Ident)
  | Repeat (label : Option Ident) (body : List Statement) (condition : Part)
      (end_label : Option Ident)
  | Leave (label : Ident)
  | Iterate (label : Ident)
  | Return (value : Part)
  | OpenCursor (cursor : Ident)
  | FetchCursor (next_keyword from_keyword : Bool) (cursor : Ident) (targets : List Ident)
  | CloseCursor (cursor : Ident)
  /-- A statement that may also stand outside a body. -/
  | Plain (statement : Part)

inductive Declaration
  | Variable (names : List Ident) (data_type : Part) (default : Option Part)
  | Condition (name : Ident) (value : ConditionValue)
  | Cursor (name : Ident) (query : Part)
  | Handler (action : HandlerAction) (conditions : List HandlerCondition) (body : Statement)

inductive ConditionalBranch
  | mk (guard : Part) (body : List Statement)

end

/-! ## Methods -/

inductive ParseError
  | unexpected (expected : String)
  | error_at (expected : String) (found : List Char)
  | recursion_limit_exceeded
  | lexical
  /-- The error of another grammar. -/
  | other (message : String)
  deriving DecidableEq

/-- The tokens ahead and the label stack. The other two fields are read by proofs alone: the label
of each construct that is open, outermost first, and what both were whenever a token was taken. -/
structure State where
  tokens : Stream
  labels : List LabelFrame
  opened : List (Option LabelFrame)
  visited : List (List (Option LabelFrame) × List LabelFrame)
  deriving DecidableEq

/-- A method fails or returns a value, and leaves the state where it stopped in both cases. -/
abbrev ParseResult := EStateM ParseError State

/-- Another grammar: how many of the tokens ahead it takes, at so many levels of recursion left. -/
abbrev Grammar := Nat → Stream → Except ParseError Nat

/-- What surrounds a body: the settings of the dialect and of the routine, and the grammars that
are read inside of it. -/
structure Around where
  compound_statements : Bool
  body_return_allowed : Bool
  reserved_column_name : Nat → Bool
  /-- A `U&"..."` name with the `UESCAPE` clause behind it. -/
  unicode_ident : Stream → Except ParseError (Ident × Nat)
  statement : Grammar
  expr : Grammar
  query : Grammar
  data_type : Grammar
  string_literal : Grammar
  unsigned_integer_literal : Grammar

def eq_ignore_ascii_case (a b : List Char) : Bool := a.map Char.toLower == b.map Char.toLower

variable {α : Type}

def unexpected (expected : String) : ParseResult α := throw (.unexpected expected)

def error_at (expected : String) (found : List Char) : ParseResult α :=
  throw (.error_at expected found)

def peek_nth (n : Nat) : ParseResult (Option Token) := do
  let tokens := (← get).tokens
  if (tokens.take (n + 1)).any Option.isNone then
    throw .lexical
  else
    return tokens[n]?.join

def peek : ParseResult (Option Token) := peek_nth 0

/-- Take `n` tokens, and note where that was. -/
def take (n : Nat) : ParseResult Unit :=
  modify fun s => { s with
    tokens := s.tokens.drop n
    visited := s.visited ++ [(s.opened, s.labels)] }

def advance : ParseResult Unit := take 1

/-- The text of the token ahead. -/
def current_text : ParseResult (List Char) := do
  return ((← peek).map (·.text)).getD []

def token_is_contextual_keyword (token : Token) (expected : String) : Bool :=
  match token.kind with
  | .Word | .Keyword _ => eq_ignore_ascii_case token.text expected.toList
  | _ => false

def peek_is_contextual_keyword (expected : String) : ParseResult Bool := do
  return (← peek).any (token_is_contextual_keyword · expected)

def eat_contextual_keyword (expected : String) : ParseResult Bool := do
  if ← peek_is_contextual_keyword expected then
    advance
    return true
  else
    return false

def expect_contextual_keyword (expected : String) : ParseResult Unit := do
  if !(← eat_contextual_keyword expected) then
    unexpected ("`" ++ expected ++ "`")

def peek_nth_is_punct (n : Nat) (punct : Punctuation) : ParseResult Bool := do
  return (← peek_nth n).any (·.kind == .Punctuation punct)

def eat_punct (punct : Punctuation) : ParseResult Bool := do
  if ← peek_nth_is_punct 0 punct then
    advance
    return true
  else
    return false

def expect_punct (punct : Punctuation) (expected : String) : ParseResult Unit := do
  if !(← eat_punct punct) then
    unexpected expected

/-- True if the token ahead is any of the words. -/
def peek_is_any_contextual_keyword (words : List String) : ParseResult Bool :=
  match words with
  | [] => return false
  | word :: words => do
    if ← peek_is_contextual_keyword word then
      return true
    else
      peek_is_any_contextual_keyword words

def parse_part (grammar : Stream → Except ParseError Nat) : ParseResult Part := do
  let tokens := (← get).tokens
  match grammar tokens with
  | .ok n =>
    take n
    return (tokens.take n).reduceOption
  | .error error => throw error

/-! ### Loops -/

/-- A loop that collects items. A round hands a value to the next one, or it ends the loop. -/
def rounds {σ : Type} (round : σ → ParseResult (Option (α × σ))) :
    Nat → σ → ParseResult (List α)
  | 0, _ => return []
  | n + 1, carried => do
    match ← round carried with
    | some (head, carried) =>
      let tail ← rounds round n carried
      return head :: tail
    | none => return []

/-- Every round takes a token, so the tokens ahead bound the rounds. -/
def repeat_rounds {σ : Type} (round : σ → ParseResult (Option (α × σ))) (carried : σ) :
    ParseResult (List α) := do
  rounds round (← get).tokens.length carried

def comma_round (item : ParseResult α) (_ : Unit) : ParseResult (Option (α × Unit)) := do
  if ← eat_punct .Comma then
    let head ← item
    return some (head, ())
  else
    return none

def parse_comma_separated (item : ParseResult α) : ParseResult (List α) := do
  let head ← item
  let tail ← repeat_rounds (comma_round item) ()
  return head :: tail

/-! ### Identifiers -/

/-- Write a doubled delimiter once. -/
def collapse (delimiter : Char) : List Char → List Char
  | [] => []
  | c :: rest =>
    if c = delimiter then
      match rest with
      | [] => [c]
      | d :: rest =>
        if d = delimiter then c :: collapse delimiter rest
        else c :: d :: collapse delimiter rest
    else
      c :: collapse delimiter rest

/-- The body between the delimiters, with a doubled close written once. -/
def materialize_quoted_ident (raw : List Char) : List Char :=
  let inner := raw.tail.dropLast
  match raw.head? with
  | some '[' => collapse ']' inner
  | some delimiter => collapse delimiter inner
  | none => inner

/-- The prefix `U&`, in either case. -/
def is_unicode_ident : List Char → Bool
  | u :: '&' :: _ => u.toLower == 'u'
  | _ => false

section
variable (around : Around)

def token_admissible (token : Token) : Bool :=
  match token.kind with
  | .Word | .QuotedIdent => true
  | .Keyword slot => !around.reserved_column_name slot
  | _ => false

def parse_ident : ParseResult Ident := do
  match ← peek with
  | some token =>
    if token_admissible around token then
      if token.kind == .QuotedIdent then
        if is_unicode_ident token.text then
          match around.unicode_ident (← get).tokens with
          | .ok (ident, n) =>
            take n
            return ident
          | .error error => throw error
        else
          advance
          return ⟨token.text, materialize_quoted_ident token.text⟩
      else
        advance
        return ⟨token.text, token.text⟩
    else
      unexpected "an identifier"
  | none => unexpected "an identifier"

/-! ## Labels -/

/-- Push the label of a construct that opens. -/
def push_label (label : Option LabelFrame) : ParseResult Unit :=
  modify fun s => { s with labels := s.labels ++ label.toList, opened := s.opened ++ [label] }

def pop_label (label : Option LabelFrame) : ParseResult Unit :=
  modify fun s => { s with
    labels := if label.isSome then s.labels.dropLast else s.labels
    opened := s.opened.dropLast }

/-- Run a method with the label of a construct on the stack. The result is looked at after the
pop, so that both a value and an error are popped. -/
def with_label (label : Option LabelFrame) (method : ParseResult α) : ParseResult α := do
  push_label label
  fun s =>
    match method s with
    | .ok a t => (do pop_label label; return a : ParseResult α) t
    | .error error t => (do pop_label label; throw error : ParseResult α) t

/-- The places where the labels decide: a label is put on a construct, a statement names one, and
one stands behind the `END`. Each is asked with the labels that are active there. -/
inductive Check
  | fresh (labels : List LabelFrame) (label : Ident)
  | leaves (labels : List LabelFrame) (label : Ident)
  | iterates (labels : List LabelFrame) (label : Ident)
  | ends (open_label close : Option Ident)

def label_in_scope (labels : List LabelFrame) (name : Ident) (require_loop : Bool) : Bool :=
  labels.any fun frame =>
    (!require_loop || frame.kind == .Loop) && eq_ignore_ascii_case frame.label.text name.text

/-- The end label matches, or there is no pair to compare. -/
def label_matches (open_label close : Option Ident) : Bool :=
  match open_label, close with
  | some open_label, some close => eq_ignore_ascii_case open_label.text close.text
  | _, _ => true

/-- The tests of the parser. -/
def label_tests : Check → Bool
  | .fresh labels label => !label_in_scope labels label false
  | .leaves labels label => label_in_scope labels label false
  | .iterates labels label => label_in_scope labels label true
  | .ends open_label close => label_matches open_label close

section
variable (tests : Check → Bool)

/-! ## Statements

Each method is handed the body statements of the next level. -/

variable (level : Nat) (statement : ParseResult Statement)

def block_round (terminators : List String) (_ : Unit) :
    ParseResult (Option (Statement × Unit)) := do
  if (← peek).isSome && !(← peek_is_any_contextual_keyword terminators) then
    let head ← statement
    expect_punct .Semicolon "`;` to terminate a compound-body statement"
    return some (head, ())
  else
    return none

/-- The statements up to a terminator. -/
def parse_block_body (terminators : List String) : ParseResult (List Statement) :=
  repeat_rounds (block_round statement terminators) ()

def token_is_word_like (token : Token) : Bool :=
  match token.kind with
  | .Word | .QuotedIdent | .Keyword _ => true
  | _ => false

def parse_optional_end_label : ParseResult (Option Ident) := do
  if (← peek).any token_is_word_like then
    let label ← parse_ident around
    return some label
  else
    return none

def check_label_match (open_label close : Option Ident) : ParseResult Unit := do
  if !tests (.ends open_label close) then
    error_at "an end label matching the opening block label" ((close.map (·.text)).getD [])

def parse_condition_value : ParseResult ConditionValue := do
  if ← eat_contextual_keyword "SQLSTATE" then
    let value_keyword ← eat_contextual_keyword "VALUE"
    let sqlstate ← parse_part (around.string_literal level)
    return .SqlState value_keyword sqlstate
  else
    let code ← parse_part (around.unsigned_integer_literal level)
    return .ErrorCode code

def parse_handler_condition : ParseResult HandlerCondition := do
  if ← eat_contextual_keyword "SQLSTATE" then
    let value_keyword ← eat_contextual_keyword "VALUE"
    let sqlstate ← parse_part (around.string_literal level)
    return .SqlState value_keyword sqlstate
  else if ← eat_contextual_keyword "SQLWARNING" then
    return .SqlWarning
  else if ← eat_contextual_keyword "SQLEXCEPTION" then
    return .SqlException
  else if ← eat_contextual_keyword "NOT" then
    expect_contextual_keyword "FOUND"
    return .NotFound
  else if (← peek).any (·.kind == .Number) then
    let code ← parse_part (around.unsigned_integer_literal level)
    return .ErrorCode code
  else
    let name ← parse_ident around
    return .ConditionName name

def parse_handler_action : ParseResult HandlerAction := do
  if ← eat_contextual_keyword "CONTINUE" then
    return .Continue
  else if ← eat_contextual_keyword "EXIT" then
    return .Exit
  else
    expect_contextual_keyword "UNDO"
    return .Undo

def parse_handler_declaration : ParseResult Declaration := do
  let action ← parse_handler_action
  expect_contextual_keyword "HANDLER"
  expect_contextual_keyword "FOR"
  let conditions ← parse_comma_separated (parse_handler_condition around level)
  let body ← statement
  return .Handler action conditions body

def parse_default : ParseResult (Option Part) := do
  if ← eat_contextual_keyword "DEFAULT" then
    let default ← parse_part (around.expr level)
    return some default
  else
    return none

def parse_variable_declaration (first : Ident) : ParseResult Declaration := do
  let names ← repeat_rounds (comma_round (parse_ident around)) ()
  let data_type ← parse_part (around.data_type level)
  let default ← parse_default around level
  return .Variable (first :: names) data_type default

/-- A declaration behind its name. -/
def parse_named_declaration : ParseResult Declaration := do
  let first ← parse_ident around
  if ← eat_contextual_keyword "CONDITION" then
    expect_contextual_keyword "FOR"
    let value ← parse_condition_value around level
    return .Condition first value
  else if ← eat_contextual_keyword "CURSOR" then
    expect_contextual_keyword "FOR"
    let query ← parse_part (around.query level)
    return .Cursor first query
  else
    parse_variable_declaration around level first

def parse_declaration : ParseResult Declaration := do
  expect_contextual_keyword "DECLARE"
  if ← peek_is_any_contextual_keyword ["CONTINUE", "EXIT", "UNDO"] then
    parse_handler_declaration around level statement
  else
    parse_named_declaration around level

/-- Where a declaration stands: variables and conditions, cursors, handlers. -/
def Declaration.phase : Declaration → Nat
  | .Variable .. | .Condition .. => 0
  | .Cursor .. => 1
  | .Handler .. => 2

/-- A declaration, which may not stand before the furthest phase so far. -/
def declaration_round (max_phase : Nat) : ParseResult (Option (Declaration × Nat)) := do
  if ← peek_is_contextual_keyword "DECLARE" then
    let found ← current_text
    let declaration ← parse_declaration around level statement
    let phase := declaration.phase
    if phase < max_phase then
      if phase = 0 then
        error_at
          "a variable or condition declaration to precede every cursor and handler declaration"
          found
      else
        error_at "a cursor declaration to precede every handler declaration" found
    else
      expect_punct .Semicolon "`;` after a declaration"
      return some (declaration, max max_phase phase)
  else
    return none

def parse_declaration_prefix : ParseResult (List Declaration) :=
  repeat_rounds (declaration_round around level statement) 0

def parse_compound_statement (label : Option Ident) : ParseResult Statement := do
  expect_contextual_keyword "BEGIN"
  let declarations ← parse_declaration_prefix around level statement
  let body ← parse_block_body statement ["END"]
  expect_contextual_keyword "END"
  let end_label ← parse_optional_end_label around
  check_label_match tests label end_label
  return .Compound label declarations body end_label

def parse_conditional_branch (terminators : List String) : ParseResult ConditionalBranch := do
  let guard ← parse_part (around.expr level)
  expect_contextual_keyword "THEN"
  let body ← parse_block_body statement terminators
  return .mk guard body

def branch_round (word : String) (terminators : List String) (_ : Unit) :
    ParseResult (Option (ConditionalBranch × Unit)) := do
  if ← eat_contextual_keyword word then
    let head ← parse_conditional_branch around level statement terminators
    return some (head, ())
  else
    return none

/-- A branch and those that the word opens behind it. -/
def parse_conditional_branches (word : String) (terminators : List String) :
    ParseResult (List ConditionalBranch) := do
  let head ← parse_conditional_branch around level statement terminators
  let tail ← repeat_rounds (branch_round around level statement word terminators) ()
  return head :: tail

def parse_else_body : ParseResult (Option (List Statement)) := do
  if ← eat_contextual_keyword "ELSE" then
    let body ← parse_block_body statement ["END"]
    return some body
  else
    return none

def parse_if_statement : ParseResult Statement := do
  expect_contextual_keyword "IF"
  let branches ←
    parse_conditional_branches around level statement "ELSEIF" ["ELSEIF", "ELSE", "END"]
  let else_body ← parse_else_body statement
  expect_contextual_keyword "END"
  expect_contextual_keyword "IF"
  return .If branches else_body

def parse_case_operand : ParseResult (Option Part) := do
  if ← peek_is_contextual_keyword "WHEN" then
    return none
  else
    let operand ← parse_part (around.expr level)
    return some operand

def parse_case_statement : ParseResult Statement := do
  expect_contextual_keyword "CASE"
  let operand ← parse_case_operand around level
  expect_contextual_keyword "WHEN"
  let when_branches ←
    parse_conditional_branches around level statement "WHEN" ["WHEN", "ELSE", "END"]
  let else_body ← parse_else_body statement
  expect_contextual_keyword "END"
  expect_contextual_keyword "CASE"
  return .Case operand when_branches else_body

def parse_loop_statement (label : Option Ident) : ParseResult Statement := do
  expect_contextual_keyword "LOOP"
  let body ← parse_block_body statement ["END"]
  expect_contextual_keyword "END"
  expect_contextual_keyword "LOOP"
  let end_label ← parse_optional_end_label around
  check_label_match tests label end_label
  return .Loop label body end_label

def parse_while_statement (label : Option Ident) : ParseResult Statement := do
  expect_contextual_keyword "WHILE"
  let condition ← parse_part (around.expr level)
  expect_contextual_keyword "DO"
  let body ← parse_block_body statement ["END"]
  expect_contextual_keyword "END"
  expect_contextual_keyword "WHILE"
  let end_label ← parse_optional_end_label around
  check_label_match tests label end_label
  return .While label condition body end_label

def parse_repeat_statement (label : Option Ident) : ParseResult Statement := do
  expect_contextual_keyword "REPEAT"
  let body ← parse_block_body statement ["UNTIL"]
  expect_contextual_keyword "UNTIL"
  let condition ← parse_part (around.expr level)
  expect_contextual_keyword "END"
  expect_contextual_keyword "REPEAT"
  let end_label ← parse_optional_end_label around
  check_label_match tests label end_label
  return .Repeat label body condition end_label

def parse_leave_statement : ParseResult Statement := do
  expect_contextual_keyword "LEAVE"
  let label ← parse_ident around
  let labels := (← get).labels
  if !tests (.leaves labels label) then
    error_at "a LEAVE target naming a block or loop label active in an enclosing scope" label.text
  else
    return .Leave label

def parse_iterate_statement : ParseResult Statement := do
  expect_contextual_keyword "ITERATE"
  let label ← parse_ident around
  let labels := (← get).labels
  if !tests (.iterates labels label) then
    error_at "an ITERATE target naming a loop label active in an enclosing scope" label.text
  else
    return .Iterate label

def parse_return_statement : ParseResult Statement := do
  let found ← current_text
  expect_contextual_keyword "RETURN"
  if !around.body_return_allowed then
    error_at "a stored-function body (RETURN is not allowed outside a function)" found
  else
    let value ← parse_part (around.expr level)
    return .Return value

def parse_open_cursor_statement : ParseResult Statement := do
  expect_contextual_keyword "OPEN"
  let cursor ← parse_ident around
  return .OpenCursor cursor

def parse_close_cursor_statement : ParseResult Statement := do
  expect_contextual_keyword "CLOSE"
  let cursor ← parse_ident around
  return .CloseCursor cursor

def parse_fetch_cursor_statement : ParseResult Statement := do
  expect_contextual_keyword "FETCH"
  let next_keyword ← eat_contextual_keyword "NEXT"
  let from_keyword ← eat_contextual_keyword "FROM"
  if next_keyword && !from_keyword then
    unexpected "`FROM` after `NEXT`"
  else
    let cursor ← parse_ident around
    expect_contextual_keyword "INTO"
    let targets ← parse_comma_separated (parse_ident around)
    return .FetchCursor next_keyword from_keyword cursor targets

/-- What a label may not stand before. -/
def dispatch_unlabelled_construct : ParseResult Statement := do
  if ← peek_is_contextual_keyword "IF" then
    parse_if_statement around level statement
  else if ← peek_is_contextual_keyword "CASE" then
    parse_case_statement around level statement
  else if ← peek_is_contextual_keyword "LEAVE" then
    parse_leave_statement around tests
  else if ← peek_is_contextual_keyword "ITERATE" then
    parse_iterate_statement around tests
  else if ← peek_is_contextual_keyword "RETURN" then
    parse_return_statement around level
  else if ← peek_is_contextual_keyword "OPEN" then
    parse_open_cursor_statement around
  else if ← peek_is_contextual_keyword "FETCH" then
    parse_fetch_cursor_statement around
  else if ← peek_is_contextual_keyword "CLOSE" then
    parse_close_cursor_statement around
  else
    unexpected "a compound-body statement"

def dispatch_body_construct (label : Option Ident) : ParseResult Statement := do
  if ← peek_is_contextual_keyword "BEGIN" then
    parse_compound_statement around tests level statement label
  else if ← peek_is_contextual_keyword "LOOP" then
    parse_loop_statement around tests statement label
  else if ← peek_is_contextual_keyword "WHILE" then
    parse_while_statement around tests level statement label
  else if ← peek_is_contextual_keyword "REPEAT" then
    parse_repeat_statement around tests level statement label
  else if label.isSome then
    unexpected "`BEGIN`, `LOOP`, `WHILE`, or `REPEAT` after a label"
  else
    dispatch_unlabelled_construct around tests level statement

def parse_open_label : ParseResult (Option Ident) := do
  if ← peek_nth_is_punct 1 .Colon then
    let label ← parse_ident around
    expect_punct .Colon "`:` after a block or loop label"
    return some label
  else
    return none

/-- The frame of a label that is not active yet. A label before anything but a block or a loop is
refused by the dispatch, so that its kind is not used. -/
def parse_label_frame (label : Ident) : ParseResult LabelFrame := do
  let labels := (← get).labels
  if !tests (.fresh labels label) then
    error_at "a block or loop label not already active in an enclosing scope" label.text
  else if ← peek_is_contextual_keyword "BEGIN" then
    return ⟨label, .Block⟩
  else
    return ⟨label, .Loop⟩

def parse_body_construct : ParseResult Statement := do
  match ← parse_open_label around with
  | some label =>
    let frame ← parse_label_frame tests label
    with_label (some frame) (dispatch_body_construct around tests level statement (some label))
  | none => with_label none (dispatch_body_construct around tests level statement none)

end

def peek_starts_body_construct : ParseResult Bool := do
  if ← peek_nth_is_punct 1 .Colon then
    return true
  else
    peek_is_any_contextual_keyword
      ["BEGIN", "IF", "CASE", "LOOP", "WHILE", "REPEAT", "LEAVE", "ITERATE", "RETURN", "OPEN",
        "FETCH", "CLOSE"]

/-- A construct of bodies, or a statement that may also stand outside of one. -/
def body_statement (level : Nat) (construct : ParseResult Statement) : ParseResult Statement := do
  if !around.compound_statements then
    unexpected "a statement (compound-statement bodies are a stored-program feature)"
  else if ← peek_starts_body_construct then
    construct
  else
    let statement ← parse_part (around.statement level)
    return .Plain statement

/-- A body statement with so many levels of recursion left. -/
def parse_body_statement_scoped (tests : Check → Bool) : Nat → ParseResult Statement
  | 0 => body_statement around 0 (throw .recursion_limit_exceeded)
  | level + 1 =>
    body_statement around (level + 1)
      (parse_body_construct around tests level (parse_body_statement_scoped tests level))

/-- A body starts with no label active. -/
def parse_body_statement (tests : Check → Bool) (level : Nat) (tokens : Stream) :
    EStateM.Result ParseError State Statement :=
  parse_body_statement_scoped around tests level ⟨tokens, [], [], []⟩

end

end squonk.parser.body
