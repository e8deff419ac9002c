import Squonk.Parser.Method.Language

/-!
# Scripts

A script is read statement by statement. The fail-fast parse ends at the first error, the
recovering one goes on behind the next `;`.
-/

open squonk.tokenizer

namespace squonk.parser.method

variable (source : List Token)

def Parser.is_eof (self : Parser) : Bool := source.length ≤ self.pos

/-- Consume any run of `;`. -/
def Parser.skip_statement_separators (self : Parser) : Parser :=
  { self with
    pos := self.pos +
      ((source.drop self.pos).takeWhile (· = .punctuation .Semicolon)).length }

/-- Discard the rest of a broken statement and the `;` behind it, if there is one. -/
def Parser.recover_to_statement_boundary (self : Parser) : Bool × Parser :=
  let boundary := self.pos + (self.ahead source).length
  if boundary < source.length then (true, { self with pos := boundary + 1 })
  else (false, { self with pos := boundary })

variable {α : Type} (statement : Parser → Outcome α)

/-- One statement, which a `;` or the end of the input has to follow, or none at the end. -/
def parse_next_statement (s : Parser) : Outcome (Option α) :=
  let s := s.skip_statement_separators source
  if s.is_eof source then .done (.ok none) s {}
  else
    (statement s).bind fun a s =>
      if (s.peek source).isSome then s.unexpected "`;` or end of input after a statement"
      else .done (.ok (some a)) s {}

/-- The statements up to the first error. Each takes a token, so the tokens bound them. -/
@[simp]
def collect_parsed : Nat → Parser → Outcome (List α)
  | 0, _ => .overflow
  | turns + 1, s =>
    (parse_next_statement source statement s).bind fun next s =>
      match next with
      | none => .done (.ok []) s {}
      | some a =>
        (collect_parsed turns s).bind fun statements s => .done (.ok (a :: statements)) s {}

def parse_with : Outcome (List α) :=
  collect_parsed source statement (source.length + 1) (.new false)

structure Recovered (α : Type) where
  statements : List α
  errors : List ParseError

/-- The statements that are read and the errors of those that are not. -/
@[simp]
def collect_recovered : Nat → Parser → Option (Recovered α)
  | 0, _ => none
  | turns + 1, s =>
    match parse_next_statement source statement s with
    | .overflow => none
    | .done (.ok none) _ _ => some ⟨[], []⟩
    | .done (.ok (some a)) s _ =>
      (collect_recovered turns s).map fun rest => { rest with statements := a :: rest.statements }
    | .done (.error e) s _ =>
      match s.recover_to_statement_boundary source with
      | (true, s) =>
        (collect_recovered turns s).map fun rest => { rest with errors := e :: rest.errors }
      | (false, _) => some ⟨[], [e]⟩

def parse_recovering : Option (Recovered α) :=
  collect_recovered source statement (source.length + 1) (.new false)

end squonk.parser.method
