import Squonk.Dialect.Feature

/-!
# The parser engine

The state a parsing method reads and changes, the token primitives, and what a successful
sequence of methods says about its parts.
-/

open squonk.tokenizer squonk.dialect

namespace squonk.parser

inductive ParseError
  | unexpected (expected : String)
  /-- The keyword was expected, and its upper-case spelling is named. -/
  | unexpected_keyword (keyword : Keyword)
  | error_at (expected : String)
  | recursion_limit_exceeded
  deriving DecidableEq

structure State where
  tokens : List Token
  /-- Closes owed by a consumed `>>`. -/
  angle_gt_pending : Nat
  /-- The next query's leading parenthesis groups and does not open an operand. -/
  paren_query_grouping : Bool
  /-- The query body just read is a whole grouping, which nothing may extend. -/
  grouped_query_complete : Bool
  deriving DecidableEq

/-- What a method of the parser is: it fails or returns a value, and in both cases leaves the
state where it stopped. -/
abbrev ParseResult := EStateM ParseError State

namespace ParseResult

variable {α β : Type}

theorem bind_ok {x : ParseResult α} {f : α → ParseResult β} {s s' : State} {b : β} :
    (x >>= f) s = .ok b s' ↔ ∃ a t, x s = .ok a t ∧ f a t = .ok b s' := by
  show EStateM.bind x f s = .ok b s' ↔ _
  unfold EStateM.bind
  cases x s with
  | ok a t => exact ⟨fun h => ⟨a, t, rfl, h⟩, fun ⟨_, _, hx, hf⟩ => by cases hx; exact hf⟩
  | error e t => simp

@[simp] theorem pure_ok {a b : α} {s s' : State} :
    (pure a : ParseResult α) s = .ok b s' ↔ a = b ∧ s = s' := by
  show EStateM.pure a s = .ok b s' ↔ _
  simp [EStateM.pure]

@[simp] theorem throw_ok {e : ParseError} {b : α} {s s' : State} :
    (throw e : ParseResult α) s = .ok b s' ↔ False := by
  show EStateM.Result.error e s = .ok b s' ↔ _
  simp

@[simp] theorem get_ok {b s s' : State} :
    (get : ParseResult State) s = .ok b s' ↔ s = b ∧ s = s' := by
  show EStateM.Result.ok s s = .ok b s' ↔ _
  simp

@[simp] theorem set_ok {a s s' : State} {b : PUnit} :
    (set a : ParseResult PUnit) s = .ok b s' ↔ a = s' := by
  show EStateM.Result.ok PUnit.unit a = .ok b s' ↔ _
  simp

@[simp] theorem modify_ok {f : State → State} {s s' : State} {b : PUnit} :
    (modify f : ParseResult PUnit) s = .ok b s' ↔ f s = s' := by
  show EStateM.Result.ok PUnit.unit (f s) = .ok b s' ↔ _
  simp

end ParseResult

variable {α : Type}

def unexpected (expected : String) : ParseResult α := throw (.unexpected expected)

def error_at (expected : String) : ParseResult α := throw (.error_at expected)

@[simp] theorem unexpected_ok {expected : String} {b : α} {s s' : State} :
    (unexpected expected : ParseResult α) s = .ok b s' ↔ False := ParseResult.throw_ok

@[simp] theorem error_at_ok {expected : String} {b : α} {s s' : State} :
    (error_at expected : ParseResult α) s = .ok b s' ↔ False := ParseResult.throw_ok

def peek_nth (n : Nat) : ParseResult (Option Token) := do
  return (← get).tokens[n]?

def peek : ParseResult (Option Token) := peek_nth 0

def advance : ParseResult Unit := modify fun s => { s with tokens := s.tokens.tail }

/-- A saved position: the tokens alone are restored by `rewind`. -/
def checkpoint : ParseResult (List Token) := do
  return (← get).tokens

def rewind (checkpoint : List Token) : ParseResult Unit :=
  modify fun s => { s with tokens := checkpoint }

def peek_nth_is (n : Nat) (token : Token) : ParseResult Bool := do
  return (← peek_nth n) == some token

@[simp] theorem peek_nth_is_ok {n : Nat} {token : Token} {s t : State} {b : Bool} :
    peek_nth_is n token s = .ok b t ↔ (s.tokens[n]? == some token) = b ∧ s = t := by
  simp only [peek_nth_is, peek_nth, ParseResult.bind_ok, ParseResult.get_ok, ParseResult.pure_ok]
  grind

def peek_is (token : Token) : ParseResult Bool := peek_nth_is 0 token

def eat (token : Token) : ParseResult Bool := do
  if ← peek_is token then
    advance
    return true
  else
    return false

def peek_is_keyword (keyword : Keyword) : ParseResult Bool := peek_is (.keyword keyword)

def peek_nth_is_keyword (n : Nat) (keyword : Keyword) : ParseResult Bool :=
  peek_nth_is n (.keyword keyword)

def eat_keyword (keyword : Keyword) : ParseResult Bool := eat (.keyword keyword)

def expect_keyword (keyword : Keyword) : ParseResult Unit := do
  unless ← eat_keyword keyword do
    throw (.unexpected_keyword keyword)

/-- Keyword tokens stand for their spelling in any position, so a word that only its position
makes a clause is matched as a keyword is. -/
def eat_contextual_keyword (expected : Keyword) : ParseResult Bool := eat_keyword expected

def peek_nth_is_contextual_keyword (n : Nat) (expected : Keyword) : ParseResult Bool :=
  peek_nth_is_keyword n expected

def expect_contextual_keyword (expected : Keyword) : ParseResult Unit := expect_keyword expected

def peek_is_punct (punct : Punctuation) : ParseResult Bool := peek_is (.punctuation punct)

def eat_punct (punct : Punctuation) : ParseResult Bool := eat (.punctuation punct)

def expect_punct (punct : Punctuation) (expected : String) : ParseResult Unit := do
  unless ← eat_punct punct do
    unexpected expected

def peek_nth_is_op (n : Nat) (op : Operator) : ParseResult Bool := peek_nth_is n (.operator op)

def eat_op (op : Operator) : ParseResult Bool := eat (.operator op)

def expect_op (op : Operator) (expected : String) : ParseResult Unit := do
  unless ← eat_op op do
    unexpected expected

/-- The items after the first one. Each round takes a comma, so the tokens left bound them. -/
def comma_separated_tail (item : ParseResult α) : Nat → ParseResult (List α)
  | 0 => return []
  | n + 1 => do
    if ← eat_punct .Comma then
      let head ← item
      let tail ← comma_separated_tail item n
      return head :: tail
    else
      return []

def parse_comma_separated (item : ParseResult α) : ParseResult (List α) := do
  let head ← item
  let tail ← comma_separated_tail item (← get).tokens.length
  return head :: tail

def take_paren_query_grouping : ParseResult Bool := do
  let s ← get
  set { s with paren_query_grouping := false }
  return s.paren_query_grouping

def set_paren_query_grouping (grouping : Bool) : ParseResult Unit :=
  modify fun s => { s with paren_query_grouping := grouping }

def mark_grouped_query_complete : ParseResult Unit :=
  modify fun s => { s with grouped_query_complete := true }

def grouped_query_complete : ParseResult Bool := do
  return (← get).grouped_query_complete

def take_grouped_query_complete : ParseResult Bool := do
  let s ← get
  set { s with grouped_query_complete := false }
  return s.grouped_query_complete

@[simp] theorem advance_ok {s t : State} {u : Unit} :
    advance s = .ok u t ↔ { s with tokens := s.tokens.tail } = t := ParseResult.modify_ok

@[simp] theorem take_paren_query_grouping_ok {s t : State} {grouping : Bool} :
    take_paren_query_grouping s = .ok grouping t ↔
      s.paren_query_grouping = grouping ∧ { s with paren_query_grouping := false } = t := by
  simp only [take_paren_query_grouping, ParseResult.bind_ok, ParseResult.get_ok,
    ParseResult.set_ok, ParseResult.pure_ok]
  grind

@[simp] theorem set_paren_query_grouping_ok {s t : State} {grouping : Bool} {u : Unit} :
    set_paren_query_grouping grouping s = .ok u t ↔
      { s with paren_query_grouping := grouping } = t := ParseResult.modify_ok

end squonk.parser
