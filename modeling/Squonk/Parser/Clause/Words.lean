import Squonk.Listing.Basic
import Squonk.Parser.Expr.Lookahead

/-!
# Words

Readers of tokens that tell words by their letters, whether or not the word is a keyword.
-/

open squonk.ast squonk.tokenizer squonk.dialect listing listing.Reader

namespace squonk.parser.clause

/-- A reader of tokens. A string constant is one token, with the strings that continue it. -/
abbrev ParseResult (α : Type) := Reader Token String α

def advance : ParseResult Unit := skip

@[simp] theorem advance_apply (ts : List Token) : advance ts = .ok ((), ts.tail) := rfl

/-- The letters of a word, in lower case. -/
def spelled : Token → Option (List Char)
  | .word text => some (text.map Char.toLower)
  | .keyword keyword => some keyword.as_str.toList
  | _ => none

def token_is_contextual_keyword (expected : String) (token : Token) : Bool :=
  spelled token == some expected.toList

def eat_contextual_keyword (expected : String) : ParseResult Bool :=
  accept (token_is_contextual_keyword expected)

def peek_nth_is_contextual_keyword (n : Nat) (expected : String) (ts : List Token) : Bool :=
  ts[n]?.any (token_is_contextual_keyword expected)

def peek_is_contextual_keyword (expected : String) (ts : List Token) : Bool :=
  ts.head?.any (token_is_contextual_keyword expected)

def eat_punct (punct : Punctuation) : ParseResult Bool := accept (· == .punctuation punct)

def eat_op (op : Operator) : ParseResult Bool := accept (· == .operator op)

/-- The name a token stands for where every keyword is a name. -/
def label : Token → Option Ident
  | .word text => some (.Word text)
  | .quoted_ident text => some (.Quoted text)
  | .keyword keyword => some (.Keyword keyword)
  | _ => none

/-- An identifier, or the text of a string that stands for one. -/
inductive Name
  | ident (name : Ident)
  | text (raw : List Char)
  deriving DecidableEq

/-- A string without a prefix stands for a name. -/
def string_alias : Token → Option Name
  | .string raw =>
    if raw.head? = some '\'' ∨ raw.head? = some '"' then some (.text raw) else none
  | _ => none

/-- Take the first token for what it stands for, where it stands for something. -/
def optional_token {α : Type} (means : Token → Option α) : ParseResult (Option α) := do
  match ← look fun ts => ts.head?.bind means with
  | some a =>
    advance
    return some a
  | none => return none

/-- What stands behind an item of a list: a comma with an item behind it, or nothing. -/
def comma_turn {α : Type} (item : ParseResult α) : ParseResult (Option α) := do
  if ← eat_punct .Comma then
    return some (← item)
  else
    return none

def parse_comma_separated {α : Type} (item : ParseResult α) : ParseResult (List α) := do
  let head ← item
  return head :: (← many (comma_turn item))

def expect_punct (punct : Punctuation) (error : String) : ParseResult Unit := do
  if ← eat_punct punct then
    return ()
  else
    fail error

theorem optional_token_apply {α : Type} (means : Token → Option α) (ts : List Token) :
    optional_token means ts =
      .ok (ts.head?.bind means, if (ts.head?.bind means).isSome then ts.tail else ts) := by
  cases h : ts.head?.bind means <;> simp [optional_token, h]

theorem is_contextual_keyword {word : String} {t : Token} (h : spelled t = some word.toList)
    (expected : String) : token_is_contextual_keyword expected t = (word == expected) := by
  rw [token_is_contextual_keyword, h, Bool.eq_iff_iff, beq_iff_eq, beq_iff_eq, Option.some.injEq,
    String.toList_inj]

theorem peek_nth_cons (n : Nat) (expected : String) (t : Token) (ts : List Token) :
    peek_nth_is_contextual_keyword (n + 1) expected (t :: ts) =
      peek_nth_is_contextual_keyword n expected ts := rfl

theorem eat_contextual_cons {word : String} {t : Token} (h : spelled t = some word.toList)
    (expected : String) (ts : List Token) :
    eat_contextual_keyword expected (t :: ts) =
      .ok (word == expected, if word = expected then ts else t :: ts) := by
  rw [eat_contextual_keyword, accept_cons, is_contextual_keyword h]
  simp only [beq_iff_eq]

theorem eat_contextual_same {α : Type} {word : String} {t : Token}
    (h : spelled t = some word.toList) (k : Bool → ParseResult α) (ts : List Token) :
    (eat_contextual_keyword word >>= k) (t :: ts) = k true ts := by
  rw [bind_apply, eat_contextual_cons h, if_pos rfl, beq_self_eq_true]
  rfl

theorem eat_contextual_other {α : Type} {word expected : String} {t : Token}
    (h : spelled t = some word.toList) (hne : word ≠ expected) (k : Bool → ParseResult α)
    (ts : List Token) : (eat_contextual_keyword expected >>= k) (t :: ts) = k false (t :: ts) := by
  rw [bind_apply, eat_contextual_cons h, if_neg hne, beq_false_of_ne hne]
  rfl

theorem peek_contextual_cons {word : String} {t : Token} (h : spelled t = some word.toList)
    (expected : String) (ts : List Token) :
    peek_is_contextual_keyword expected (t :: ts) = (word == expected) :=
  is_contextual_keyword h expected

theorem eat_of_not {α : Type} {expected : String} {t : Token}
    (h : token_is_contextual_keyword expected t = false) (k : Bool → ParseResult α)
    (ts : List Token) : (eat_contextual_keyword expected >>= k) (t :: ts) = k false (t :: ts) := by
  rw [bind_apply, eat_contextual_keyword, accept_cons, h]
  rfl

end squonk.parser.clause
