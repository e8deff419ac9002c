import Squonk.Dialect.Presets
import Squonk.Parser.Method.Agreement
import Squonk.Parser.Method.Grammar
import Squonk.Parser.Method.Statement

/-!
# Parses under two limits

Unless a branch that ended at the recursion limit is given up, a parse that does not itself end
at the limit is the same under every larger one.
-/

open squonk.tokenizer squonk.dialect

namespace squonk.parser.method

/-- The parse came to an end that is not the recursion limit, and gave up no branch that ended
there. -/
abbrev Outcome.Settled {α : Type} : Outcome α → Prop := Outcome.Avoids Event.is_swallowed true

theorem sat_anywhere {α : Type} (s : Parser) (x : Outcome α) :
    x.Sat (fun _ _ _ _ => True → True) s := by
  cases x <;> simp [Outcome.Sat]

theorem alike_limits (source : List Token) {limit more : Nat} (hlimit : limit ≤ more) :
    Alike source source limit more Event.is_swallowed true fun _ => True where
  limits := hlimit
  loose hloose := by cases hloose
  swallowed _ _ := rfl
  marks event hmark := by cases event <;> first | rfl | cases hmark
  reach := by constructor <;> intros <;> first | trivial | exact sat_anywhere _ _
  perform _ _ _ _ := rfl

theorem exec_limit_mono (G : Grammar) (source : List Token) {limit more : Nat}
    (hlimit : limit ≤ more) (frames : Nat) (p : G.Proc) (s : Parser)
    (hsettled : (G.exec source limit frames p s).Settled) :
    G.exec source more frames p s = G.exec source limit frames p s :=
  (alike_limits source hlimit).exec G frames p s trivial hsettled

section Statements

variable {α : Type} {source : List Token} {statement statement' : Parser → Outcome α}

theorem bind_settled {β : Type} {x x' : Outcome α} {f f' : α → Parser → Outcome β}
    (hsettled : (x.bind f).Settled) (hx : x.Settled → x' = x)
    (hf : ∀ a s, (f a s).Settled → f' a s = f a s) : x'.bind f' = x.bind f := by
  apply @bind_agrees _ _ _ _ (fun _ => True) _ _ _ _ _ hsettled trivial
    (sat_anywhere (.new false) x) hx
  intro a s _
  exact hf a s

theorem parse_next_statement_settled
    (hstatement : ∀ s, (statement s).Settled → statement' s = statement s) (s : Parser)
    (hsettled : (parse_next_statement source statement s).Settled) :
    parse_next_statement source statement' s = parse_next_statement source statement s := by
  unfold parse_next_statement at hsettled ⊢
  simp only at hsettled ⊢
  split
  · rfl
  · next heof =>
    rw [if_neg heof] at hsettled
    exact bind_settled hsettled (hstatement _) fun _ _ _ => rfl

theorem collect_parsed_settled
    (hstatement : ∀ s, (statement s).Settled → statement' s = statement s) (turns : Nat)
    (s : Parser) (hsettled : (collect_parsed source statement turns s).Settled) :
    collect_parsed source statement' turns s = collect_parsed source statement turns s := by
  induction turns generalizing s with
  | zero => rfl
  | succ turns ih =>
    apply bind_settled hsettled (parse_next_statement_settled hstatement s)
    intro next s' hrest
    cases next with
    | none => rfl
    | some a => exact bind_settled hrest (ih s') fun _ _ _ => rfl

end Statements

/-- A parse that does not end at the recursion limit, and gives up no branch that ended there,
is the same parse under a larger limit: the same trees, or the same error at the same place. -/
theorem parse_with_limit_mono (G : Grammar) (p : G.Proc) (source : List Token)
    {limit more : Nat} (hlimit : limit ≤ more) (frames : Nat)
    (hsettled : (parse_with source (G.exec source limit frames p)).Settled) :
    parse_with source (G.exec source more frames p) =
      parse_with source (G.exec source limit frames p) :=
  collect_parsed_settled (exec_limit_mono G source hlimit frames p) _ _ hsettled

/-- In DuckDB `a ! NOT b` is an infix operator between two operands. -/
def infix_not : List Token :=
  [.keyword .Select, .word ['a'], .operator .Bang, .keyword .Not, .word ['b']]

def failure {α : Type} : Outcome α → Option (Option ParseError)
  | .overflow => none
  | .done result _ _ => some (error? result)

/-- Under the limit 3 the lookahead for the right operand ends at the limit, so that the operator
is taken for a postfix one and the rest is rejected. Under the limit 5 the source is accepted. -/
theorem parse_with_limit_swallowed :
    failure (parse_with infix_not ((sql FeatureSet.DUCKDB .DUCKDB).exec infix_not 3 40
      .parse_statement)) =
        some (some ⟨.Unexpected "`;` or end of input after a statement", 3⟩) ∧
      failure (parse_with infix_not ((sql FeatureSet.DUCKDB .DUCKDB).exec infix_not 5 40
        .parse_statement)) = some none := by
  decide +kernel

/-- A group under the limit 5 is the same under the limit 128. -/
theorem parse_with_limit_mono_group :
    let source : List Token := [.keyword .Select, .lparen, .word ['a'], .rparen]
    parse_with source ((sql FeatureSet.DUCKDB .DUCKDB).exec source 128 40 .parse_statement) =
      parse_with source ((sql FeatureSet.DUCKDB .DUCKDB).exec source 5 40 .parse_statement) := by
  apply parse_with_limit_mono _ _ _ (by decide)
  decide +kernel

end squonk.parser.method
