import Squonk.Parser.Method.Deepen
import Squonk.Parser.Method.Frame
import Squonk.Parser.Method.Limit

/-!
# Operators behind an operand

The climb over operands of any grammar. At an operator it looks ahead for an operand: where none
begins the operator is a postfix one, elsewhere an infix one.
-/

open squonk.ast squonk.tokenizer squonk.dialect squonk.precedence squonk.parser.method

namespace squonk.parser.climb

/-! ## Grammar -/

/-- What the climb builds. Every expression that it does not build is a primary one. -/
inductive Expr (A : Type)
  | Primary (a : A)
  | PostfixOperator (lhs : Expr A) (op : Operator)
  | NamedOperator (lhs : Expr A) (op : Operator) (right : Expr A)
  | BinaryOp (lhs : Expr A) (op : BinaryOperator) (right : Expr A)

structure ParsedExpr (A : Type) where
  expr : Expr A
  grouped : Bool

inductive Proc (P : Type)
  | parse_prefix
  | parse_expr_bp_inner (min_bp : Nat)
  /-- What the lookahead tries: to step over the operator and to read a primary. -/
  | operand_ahead
  | other (p : P)

abbrev Proc.Ret {P : Type} (A : Type) (R : P → Type) : Proc P → Type
  | parse_prefix => ParsedExpr A
  | parse_expr_bp_inner _ => Expr A
  | operand_ahead => Unit
  | other p => R p

/-- What the climb leaves to the rest of the grammar. -/
structure Operands {P : Type} (A : Type) (R : P → Type) where
  parse_prefix : Method (Proc.Ret A R) (ParsedExpr A)
  body (p : P) : Method (Proc.Ret A R) (R p)
  /-- Membership tests, predicates and the operators of the postfix family. -/
  keyword_turn (min_bp : Nat) (lhs : Expr A) (grouped : Bool) : Method (Proc.Ret A R) (Option A)
  construct_turn (min_bp : Nat) (lhs : Expr A) : Method (Proc.Ret A R) (Option A)
  hook_turn (min_bp : Nat) (lhs : Expr A) (grouped : Bool) : Method (Proc.Ret A R) (Option A)
  parse_quantified_operator_tail (lhs : Expr A) (op : BinaryOperator) : Method (Proc.Ret A R) A
  lhs_chains_nonassoc (lhs : Expr A) (level : Nat) : Bool
  /-- The lambda whose parameters the left operand is. -/
  lambda_params (lhs : Expr A) (grouped : Bool) : Option (Expr A → A)

section

variable {P A : Type} {R : P → Type} (features : FeatureSet) (o : Operands A R)

/-- The tokens at which a primary begins whatever follows them. Positional columns and session
    variables are parameters here. -/
def opens_primary : Option Token → Bool
  | some (.word _) | some (.quoted_ident _) | some (.number _) | some (.string _)
  | some (.parameter _) | some .lparen => true
  | _ => false

def look {α : Type} (test : List Token → α) : Method (Proc.Ret A R) α := .step (.look test)

def invoke (entry : Entry) (p : Proc P) :
    Method (Proc.Ret A R) (entry.Reply (Proc.Ret A R p)) := Method.invoke entry p

def parse_prefix : Method (Proc.Ret A R) (ParsedExpr A) := invoke .plain Proc.parse_prefix

def parse_expr_bp (min_bp : Nat) : Method (Proc.Ret A R) (Expr A) :=
  invoke .guarded (.parse_expr_bp_inner min_bp)

/-- Whether an operand starts behind the operator at the front. -/
def peek_operand_follows_operator : Method (Proc.Ret A R) Bool := do
  if opens_primary (← look fun ts => ts[1]?) then
    return true
  else
    invoke .probe .operand_ahead

def peek_postfix_symbolic_operator : Method (Proc.Ret A R) (Option Operator) := do
  match ← look fun ts => ts.head? with
  | some (.operator op) =>
    if expr.is_postfix_symbolic_operator op then
      if ← peek_operand_follows_operator then
        return none
      else
        return some op
    else
      return none
  | _ => return none

def reject_nonassoc_chain (lhs : Expr A) (bp : BindingPower) (grouped : Bool) : Bool :=
  bp.assoc == .NonAssoc && !grouped && o.lhs_chains_nonassoc lhs bp.left

def fold_infix (lhs : Expr A) (grouped : Bool) (op : BinaryOperator) (bp : BindingPower) :
    Method (Proc.Ret A R) (Expr A) :=
  if reject_nonassoc_chain o lhs bp grouped then
    .act (.unexpected "the end of the comparison") Empty.elim
  else do
    .step .advance
    match if op == .JsonGet && features.operator_syntax.lambda_expressions then
        o.lambda_params lhs grouped else none with
    | some lambda =>
      let body ← parse_expr_bp bp.right
      return .Primary (lambda body)
    | none =>
      if expr.is_quantifiable_operator features op && !(← .step (.mode .RestrictBExpr)) &&
          (← look (expr.peek_quantifier features)) then
        return .Primary (← o.parse_quantified_operator_tail lhs op)
      let right ← parse_expr_bp bp.right
      return .BinaryOp lhs op right

/-- An operator without a meaning of its own, one of the dialect's infix operators, or one that the
    dialect's hook reads. -/
def infix_turn (min_bp : Nat) (lhs : Expr A) (grouped : Bool) :
    Method (Proc.Ret A R) (Option (Expr A)) := do
  match ← look (expr.peek_bare_infix_operator features) with
  | some op =>
    let bp := features.binding_powers.any_operator
    if bp.left < min_bp then
      return none
    .step .advance
    let right ← parse_expr_bp bp.right
    return some (.NamedOperator lhs op right)
  | none =>
    match ← look fun ts => (expr.peek_infix_operator features ts).bind expr.Infix.means? with
    | none => return (← o.hook_turn min_bp lhs grouped).map .Primary
    | some op =>
      if (← .step (.mode .RestrictBExpr)) && (op == .And || op == .Or) then
        return none
      let bp := features.binding_power op
      if bp.left < min_bp then
        return none
      return some (← fold_infix features o lhs grouped op bp)

/-- Whether a predicate or an operator of the postfix family stands at the front. -/
def peek_keyword_turn (min_bp : Nat) (ts : List Token) : Bool :=
  expr.peek_unparenthesized_in_list features ts || expr.peek_starts_predicate features ts ||
    (expr.peek_postfix_operator features ts).any fun op =>
      decide (min_bp ≤ (op.binding_power features.binding_powers).left)

/-- One turn of the climb: the operator behind `lhs` is folded onto it, or ends the climb. -/
def climb_turn (min_bp : Nat) (lhs : Expr A) (grouped : Bool) :
    Method (Proc.Ret A R) (Option (Expr A)) := do
  if ← look (peek_keyword_turn features min_bp) then
    return (← o.keyword_turn min_bp lhs grouped).map .Primary
  let postfix_op ←
    if features.operator_syntax.postfix_operators
        && min_bp ≤ features.binding_powers.any_operator.left then
      peek_postfix_symbolic_operator
    else
      pure none
  match postfix_op with
  | some op =>
    .step .advance
    return some (.PostfixOperator lhs op)
  | none =>
    if ← look (expr.peek_operator_construct features) then
      return (← o.construct_turn min_bp lhs).map .Primary
    infix_turn features o min_bp lhs grouped

/-- The turns of the climb. Each takes a token, so the tokens before the next `;` bound them. -/
def climb_loop (min_bp : Nat) : Nat → Expr A → Bool → Method (Proc.Ret A R) (Expr A)
  | 0, lhs, _ => return lhs
  | turns + 1, lhs, grouped => do
    match ← climb_turn features o min_bp lhs grouped with
    | none => return lhs
    | some lhs => climb_loop min_bp turns lhs false

/-- The climb over the operands. -/
abbrev grammar : Grammar where
  Proc := Proc P
  Ret := Proc.Ret A R
  body
    | Proc.parse_prefix => Operands.parse_prefix o
    | .parse_expr_bp_inner min_bp => do
      let parsed ← parse_prefix
      climb_loop features o min_bp (← look List.length) parsed.expr parsed.grouped
    | .operand_ahead => do
      .step .advance
      discard parse_prefix
    | .other p => o.body p

end

/-! ## Runs of programs -/

section

variable {α β γ : Type} {source : List Token} {limit : Nat}

theorem after_empty (x : Outcome α) : x.after {} = x := by
  cases x <;> rfl

theorem after_after (first second : Trail) (x : Outcome α) :
    (x.after second).after first =
      x.after ⟨first.clauses ++ second.clauses, first.events ++ second.events⟩ := by
  cases x with
  | overflow => rfl
  | done result s trail => simp only [Outcome.after, List.append_assoc]

theorem bind_after (trail : Trail) (x : Outcome α) (f : α → Parser → Outcome β) :
    (x.after trail).bind f = (x.bind f).after trail := by
  cases x with
  | overflow => rfl
  | done result s rest =>
    cases result with
    | error e => rfl
    | ok a => exact (after_after _ _ _).symm

theorem bind_assoc (x : Outcome α) (f : α → Parser → Outcome β) (g : β → Parser → Outcome γ) :
    (x.bind f).bind g = x.bind fun a s => (f a s).bind g := by
  cases x with
  | overflow => rfl
  | done result s trail =>
    cases result with
    | error e => rfl
    | ok a => exact bind_after _ _ _

variable {Proc : Type} {Ret : Proc → Type} {callee : (p : Proc) → Parser → Outcome (Ret p)}

theorem run_bind (program : Method Ret α) (f : α → Method Ret β) (s : Parser) :
    (program >>= f).run source limit callee s =
      (program.run source limit callee s).bind fun a s => (f a).run source limit callee s := by
  induction program generalizing s with
  | pure a => exact (after_empty _).symm
  | act action k ih =>
    refine Eq.trans ?_ (bind_assoc _ _ _).symm
    show (perform source action s).bind _ = _
    congr 1
    funext reply s'
    exact ih reply s'
  | call entry p k ih =>
    refine Eq.trans ?_ (bind_assoc _ _ _).symm
    show (enter limit entry (callee p) s).bind _ = _
    congr 1
    funext reply s'
    exact ih reply s'
  | query grouping p k ih =>
    refine Eq.trans ?_ (bind_assoc _ _ _).symm
    show (enter_query limit grouping _ s).bind _ = _
    congr 1
    funext reply s'
    exact ih reply.1 reply.2 s'

theorem run_pure (a : α) (s : Parser) :
    (Pure.pure a : Method Ret α).run source limit callee s = .done (.ok a) s {} := rfl

theorem bind_pure (x : Outcome α) : (x.bind fun a s => .done (.ok a) s {}) = x := by
  cases x with
  | overflow => rfl
  | done result s trail =>
    cases result with
    | error e => rfl
    | ok a => simp only [Outcome.bind, Outcome.after, List.append_nil]

theorem run_step (action : Action) (s : Parser) :
    (Method.step action : Method Ret _).run source limit callee s = perform source action s :=
  bind_pure _

theorem run_invoke (entry : Entry) (p : Proc) (s : Parser) :
    (Method.invoke entry p).run source limit callee s = enter limit entry (callee p) s :=
  bind_pure _

theorem ok_bind (a : α) (s : Parser) (f : α → Parser → Outcome β) :
    (Outcome.done (.ok a) s {}).bind f = f a s := after_empty _

end

/-! ## A turn at an operator -/

section

variable {P A : Type} {R : P → Type} {features : FeatureSet} {o : Operands A R}
variable {source : List Token} {limit : Nat}

section

variable {callee : (p : Proc P) → Parser → Outcome (Proc.Ret A R p)}

theorem run_look {α : Type} (test : List Token → α) (s : Parser) :
    (look test : Method (Proc.Ret A R) α).run source limit callee s =
      .done (.ok (test (s.ahead source))) s {} := rfl

theorem peek_keyword_turn_operator (op : Operator) (rest : List Token) (min_bp : Nat) :
    peek_keyword_turn features min_bp (.operator op :: rest) = false := by
  simp [peek_keyword_turn, expr.peek_unparenthesized_in_list, expr.peek_is_keyword,
    expr.peek_nth_is_keyword, expr.peek_starts_predicate, expr.peek_overlaps,
    expr.peek_starts_range_predicate, expr.range_predicate_at, expr.similar_to_at,
    expr.peek_postfix_operator]

theorem peek_operator_construct_operator (op : Operator) (rest : List Token) :
    expr.peek_operator_construct features (.operator op :: rest) = false := by
  simp [expr.peek_operator_construct, expr.peek_is_keyword, expr.peek_nth_is_keyword]

theorem run_peek_operand_follows_operator {s : Parser} {op : Operator} {rest : List Token}
    (hop : s.ahead source = .operator op :: rest) :
    (peek_operand_follows_operator : Method (Proc.Ret A R) Bool).run source limit callee s =
      if opens_primary rest.head? then .done (.ok true) s {}
      else probe (callee .operand_ahead) s := by
  have hnext : (Token.operator op :: rest)[1]? = rest.head? := by
    cases rest <;> rfl
  unfold peek_operand_follows_operator
  rw [run_bind, run_look, ok_bind, hop, hnext]
  split
  · rfl
  · exact run_invoke _ _ _

theorem run_peek_postfix_symbolic_operator {s : Parser} {op : Operator} {rest : List Token}
    (hop : s.ahead source = .operator op :: rest)
    (hclass : expr.is_postfix_symbolic_operator op = true) :
    (peek_postfix_symbolic_operator : Method (Proc.Ret A R) (Option Operator)).run source limit
        callee s =
      ((peek_operand_follows_operator : Method (Proc.Ret A R) Bool).run source limit callee s).bind
        fun follows s => .done (.ok (if follows then none else some op)) s {} := by
  unfold peek_postfix_symbolic_operator
  rw [run_bind, run_look, ok_bind, hop]
  simp only [List.head?_cons, hclass, if_true, run_bind]
  congr 1
  funext follows s'
  cases follows <;> rfl

/-- At an operator the turn is decided by the lookahead alone. -/
theorem run_climb_turn {s : Parser} {op : Operator} {rest : List Token} {min_bp : Nat}
    (lhs : Expr A) (grouped : Bool) (hop : s.ahead source = .operator op :: rest)
    (hadmits : features.operator_syntax.postfix_operators = true)
    (hpower : min_bp ≤ features.binding_powers.any_operator.left)
    (hclass : expr.is_postfix_symbolic_operator op = true) :
    (climb_turn features o min_bp lhs grouped).run source limit callee s =
      ((peek_operand_follows_operator : Method (Proc.Ret A R) Bool).run source limit callee s).bind
        fun follows s' =>
          if follows then
            (do
              if ← look (expr.peek_operator_construct features) then
                return (← o.construct_turn min_bp lhs).map Expr.Primary
              infix_turn features o min_bp lhs grouped).run source limit callee s'
          else (s'.step source).bind fun _ s' => .done (.ok (some (.PostfixOperator lhs op))) s' {} := by
  unfold climb_turn
  rw [run_bind, run_look, ok_bind, hop, peek_keyword_turn_operator]
  simp only [Bool.false_eq_true, if_false, hadmits, Bool.true_and, hpower, decide_true, if_true]
  rw [run_bind, run_peek_postfix_symbolic_operator hop hclass, bind_assoc]
  congr 1
  funext follows s'
  rw [ok_bind]
  cases follows with
  | true => rfl
  | false =>
    simp only [Bool.false_eq_true, if_false]
    rw [run_bind, run_step]
    rfl

end

/-! ## What a turn builds -/

section

variable {Proc : Type} {Ret : Proc → Type} {α β : Type} {Q : α → Prop}

/-- Every value that a program can end with is of a kind. -/
inductive Yields (Q : α → Prop) : Method Ret α → Prop
  | pure {a : α} (h : Q a) : Yields Q (.pure a)
  | act {action : Action} {k : action.Reply → Method Ret α} (h : ∀ reply, Yields Q (k reply)) :
    Yields Q (.act action k)
  | call {entry : Entry} {p : Proc} {k : entry.Reply (Ret p) → Method Ret α}
      (h : ∀ reply, Yields Q (k reply)) : Yields Q (.call entry p k)
  | query {grouping : Bool} {p : Bool → Proc} {k : (taken : Bool) → Ret (p taken) → Method Ret α}
      (h : ∀ taken a, Yields Q (k taken a)) : Yields Q (.query grouping p k)

theorem Yields.bind {program : Method Ret β} {f : β → Method Ret α} (h : ∀ b, Yields Q (f b)) :
    Yields Q (program >>= f) := by
  induction program with
  | pure a => exact h a
  | act action k ih => exact .act ih
  | call entry p k ih => exact .call ih
  | query grouping p k ih => exact .query ih

theorem Yields.map {program : Method Ret β} {f : β → α} (h : Yields (fun b => Q (f b)) program) :
    Yields Q (program >>= fun b => Method.pure (f b)) := by
  induction h with
  | pure h => exact .pure h
  | act _ ih => exact .act ih
  | call _ ih => exact .call ih
  | query _ ih => exact .query ih

theorem of_bind {x : Outcome β} {f : β → Parser → Outcome α} {a : α} {s' : Parser} {trail : Trail}
    (hf : ∀ b s s' trail, f b s = .done (.ok a) s' trail → Q a)
    (heq : x.bind f = .done (.ok a) s' trail) : Q a := by
  cases x with
  | overflow => cases heq
  | done result s first =>
    cases result with
    | error e => cases heq
    | ok b =>
      simp only [Outcome.bind] at heq
      cases hstep : f b s with
      | overflow =>
        rw [hstep] at heq
        cases heq
      | done result' s'' rest =>
        rw [hstep] at heq
        cases heq
        exact hf b s _ _ hstep

theorem Yields.run {callee : (p : Proc) → Parser → Outcome (Ret p)} {program : Method Ret α}
    (h : Yields Q program) {s s' : Parser} {a : α} {trail : Trail}
    (hrun : program.run source limit callee s = .done (.ok a) s' trail) : Q a := by
  induction h generalizing s s' trail with
  | pure h =>
    cases hrun
    exact h
  | act _ ih => exact of_bind (fun reply s s' trail h => ih reply h) hrun
  | call _ ih => exact of_bind (fun reply s s' trail h => ih reply h) hrun
  | query _ ih => exact of_bind (fun reply s s' trail h => ih reply.1 reply.2 h) hrun

end

theorem fold_infix_yields (lhs : Expr A) (grouped : Bool) (op : BinaryOperator)
    (bp : BindingPower) :
    Yields (fun node => ∀ op, node ≠ .PostfixOperator lhs op)
      ( fold_infix features o lhs grouped op bp) := by
  have hprimary (a : A) : Yields (fun node => ∀ op, node ≠ .PostfixOperator lhs op)
      (pure (Expr.Primary a) : Method (Proc.Ret A R) (Expr A)) := .pure nofun
  unfold fold_infix
  split
  · exact .act nofun
  · refine .bind fun _ => ?_
    split
    · exact .bind fun body => hprimary _
    · refine .bind fun restricted => .bind fun quantifier => ?_
      split
      · exact .bind fun tail => hprimary _
      · exact .bind fun right => .pure nofun

/-- No infix turn builds a postfix operator. -/
theorem infix_turn_yields (min_bp : Nat) (lhs : Expr A) (grouped : Bool) :
    Yields (fun node => ∀ op, node ≠ some (.PostfixOperator lhs op))
      (infix_turn features o min_bp lhs grouped) := by
  have hprimary (a : Option A) :
      Yields (fun node => ∀ op, node ≠ some (.PostfixOperator lhs op))
        (pure (a.map Expr.Primary) : Method (Proc.Ret A R) (Option (Expr A))) := by
    refine .pure fun op heq => ?_
    cases a <;> cases heq
  have hnone : Yields (fun node => ∀ op, node ≠ some (.PostfixOperator lhs op))
      (pure none : Method (Proc.Ret A R) (Option (Expr A))) := .pure nofun
  unfold infix_turn
  refine .bind fun bare => ?_
  cases bare with
  | some op =>
    dsimp only
    split
    · exact hnone
    · exact .bind fun _ => .bind fun right => .pure nofun
  | none =>
    refine .bind fun means => ?_
    cases means with
    | none => exact .bind fun a => hprimary a
    | some means =>
      refine .bind fun restricted => ?_
      dsimp only
      split
      · exact hnone
      · split
        · exact hnone
        · refine .map ?_
          simp only [ne_eq, Option.some.injEq]
          exact fold_infix_yields lhs grouped means _

/-! ## Operands behind an operator -/

/-- How the dialect reads the operator between two operands: the power of the right one, and what
    is built. -/
inductive InfixReading (features : FeatureSet) (o : Operands A R) (s : Parser) (rest : List Token)
    (lhs : Expr A) (grouped : Bool) (op : Operator) : BindingPower → (Expr A → Expr A) → Prop
  | bare (hcustom : features.operator_syntax.custom_operators = true)
      (hbare : expr.is_bare_operator op = true) :
    InfixReading features o s rest lhs grouped op features.binding_powers.any_operator
      (.NamedOperator lhs op)
  | binary {means : BinaryOperator}
      (hbare : (features.operator_syntax.custom_operators && expr.is_bare_operator op) = false)
      (hmeans : expr.infix_operator features op = some means)
      (hrestricted : s.modes .RestrictBExpr = false ∨ means ≠ .And ∧ means ≠ .Or)
      (hchain : reject_nonassoc_chain o lhs (features.binding_power means) grouped = false)
      (hquantifier : (expr.is_quantifiable_operator features means &&
        !s.modes .RestrictBExpr && expr.peek_quantifier features rest) = false) :
    InfixReading features o s rest lhs grouped op (features.binding_power means)
      (.BinaryOp lhs means)

theorem means_ne_json_get {op : Operator} {means : BinaryOperator}
    (hclass : expr.is_postfix_symbolic_operator op = true)
    (hmeans : expr.infix_operator features op = some means) : means ≠ .JsonGet := by
  rintro rfl
  cases op <;> simp only [expr.is_postfix_symbolic_operator, Bool.false_eq_true] at hclass <;>
    simp only [expr.infix_operator] at hmeans
  all_goals first
    | cases hmeans
    | (split at hmeans <;> cases hmeans)
    | (cases hoverlap : features.double_ampersand <;> rw [hoverlap] at hmeans <;> cases hmeans)
    | (cases hpipe : features.pipe_operator <;> rw [hpipe] at hmeans <;> cases hmeans)

section

variable {callee : (p : Proc P) → Parser → Outcome (Proc.Ret A R p)}

theorem step_of_ahead {s : Parser} {t : Token} {rest : List Token}
    (hahead : s.ahead source = t :: rest) :
    s.step source = .done (.ok ()) { s with pos := s.pos + 1 } {} ∧
      ({ s with pos := s.pos + 1 } : Parser).ahead source = rest := by
  have hdrop : ∃ behind, source.drop s.pos = t :: behind ∧
      behind.takeWhile (· ≠ .punctuation .Semicolon) = rest := by
    unfold Parser.ahead at hahead
    cases hdrop : source.drop s.pos with
    | nil => simp [hdrop] at hahead
    | cons t' behind =>
      rw [hdrop, List.takeWhile_cons] at hahead
      split at hahead
      · obtain ⟨rfl, hrest⟩ := List.cons.inj hahead
        exact ⟨behind, rfl, hrest⟩
      · cases hahead
  obtain ⟨behind, hdrop, hrest⟩ := hdrop
  have hpos : s.pos < source.length := by
    by_contra hend
    rw [List.drop_eq_nil_of_le (Nat.le_of_not_lt hend)] at hdrop
    cases hdrop
  refine ⟨?_, ?_⟩
  · unfold Parser.step Parser.advance Parser.peek
    rw [hahead, if_pos hpos]
    rfl
  · unfold Parser.ahead
    rw [← List.tail_drop, hdrop]
    exact hrest

theorem run_fold_infix {s : Parser} {op : Operator} {rest : List Token} {lhs : Expr A}
    {grouped : Bool} {means : BinaryOperator} {bp : BindingPower}
    (hop : s.ahead source = .operator op :: rest)
    (hclass : expr.is_postfix_symbolic_operator op = true)
    (hmeans : expr.infix_operator features op = some means)
    (hchain : reject_nonassoc_chain o lhs bp grouped = false)
    (hquantifier : (expr.is_quantifiable_operator features means &&
      !s.modes .RestrictBExpr && expr.peek_quantifier features rest) = false) :
    ( fold_infix features o lhs grouped means bp).run source limit callee s =
      ((s.step source).bind fun _ s =>
        enter_recursion limit (callee (.parse_expr_bp_inner bp.right)) s).bind
        fun right s => .done (.ok (.BinaryOp lhs means right)) s {} := by
  have hjson : (means == .JsonGet) = false := by
    simpa using means_ne_json_get hclass hmeans
  obtain ⟨hstep, hahead⟩ := step_of_ahead hop
  unfold fold_infix
  rw [hchain, if_neg Bool.false_ne_true, run_bind, run_step, hjson]
  simp only [Bool.false_and, Bool.false_eq_true, if_false]
  rw [perform, hstep, ok_bind, ok_bind, run_bind, run_step, perform, ok_bind, run_bind, run_look,
    ok_bind, hahead]
  rw [if_neg (by rw [hquantifier]; exact Bool.false_ne_true), run_bind, parse_expr_bp, invoke,
    run_invoke]
  rfl

/-- The turn reads the right operand and builds the infix node. -/
theorem run_infix_turn {s : Parser} {op : Operator} {rest : List Token} {min_bp : Nat}
    {lhs : Expr A} {grouped : Bool} {bp : BindingPower} {node : Expr A → Expr A}
    (hop : s.ahead source = .operator op :: rest)
    (hclass : expr.is_postfix_symbolic_operator op = true)
    (hreading : InfixReading features o s rest lhs grouped op bp node) (hpower : min_bp ≤ bp.left) :
    (infix_turn features o min_bp lhs grouped).run source limit callee s =
      ((s.step source).bind fun _ s =>
        enter_recursion limit (callee (.parse_expr_bp_inner bp.right)) s).bind
        fun right s => .done (.ok (some (node right))) s {} := by
  unfold infix_turn
  rw [run_bind, run_look, ok_bind, hop]
  cases hreading with
  | bare hcustom hbare =>
    have hpeek : expr.peek_bare_infix_operator features (.operator op :: rest) = some op := by
      simp [expr.peek_bare_infix_operator, hcustom, hbare]
    rw [hpeek]
    dsimp only
    rw [if_neg (Nat.not_lt.mpr hpower), run_bind, run_step, bind_assoc]
    refine congrArg (Outcome.bind _) (funext fun _ => funext fun s' => ?_)
    rw [run_bind, parse_expr_bp, invoke, run_invoke]
    rfl
  | @binary means hbare hmeans hrestricted hchain hquantifier =>
    have hpeek : expr.peek_bare_infix_operator features (.operator op :: rest) = none := by
      simp [expr.peek_bare_infix_operator, hbare]
    have hmeant : (expr.peek_infix_operator features (.operator op :: rest)).bind
        expr.Infix.means? = some means := by
      simp [expr.peek_infix_operator, hmeans, expr.Infix.means?]
    rw [hpeek]
    dsimp only
    rw [run_bind, run_look, ok_bind, hop, hmeant]
    dsimp only
    have hkept : ¬ ((s.modes .RestrictBExpr &&
        (means == .And || means == .Or)) = true) := by
      obtain hfree | ⟨hand, hor⟩ := hrestricted
      · simp [hfree]
      · simp [hand, hor]
    rw [run_bind, run_step, perform, ok_bind, if_neg hkept, if_neg (Nat.not_lt.mpr hpower),
      run_bind, run_fold_infix hop hclass hmeans hchain hquantifier, bind_assoc]
    rfl

end

variable (features o) in
/-- The productions, run on a stack of some room. -/
def exec (source : List Token) (limit frames : Nat) (p : Proc P) :
    Parser → Outcome (Proc.Ret A R p) := (grammar features o).exec source limit frames p

variable {frames : Nat}

theorem exec_operand_ahead (s : Parser) :
    exec features o source limit (frames + 1) .operand_ahead s =
      (s.step source).bind fun _ s => (exec features o source limit frames Proc.parse_prefix s).bind
        fun _ s => .done (.ok ()) s {} := by
  show ((do
    .step .advance
    discard parse_prefix) : Method (Proc.Ret A R) Unit).run source limit _ s = _
  rw [run_bind, run_step]
  refine congrArg (Outcome.bind _) (funext fun _ => funext fun s' => ?_)
  show ( parse_prefix >>= fun _ => pure ()).run source limit _ s' = _
  rw [run_bind, parse_prefix, invoke, run_invoke]
  rfl

theorem exec_parse_expr_bp_inner (min_bp : Nat) (s : Parser) :
    ∃ f, exec features o source limit (frames + 1) (.parse_expr_bp_inner min_bp) s =
      (exec features o source limit frames Proc.parse_prefix s).bind f := by
  refine ⟨_, Eq.trans (run_bind _ _ _) (congrArg (Outcome.bind · _) ?_)⟩
  exact run_invoke _ _ _

theorem settled_of_bind {α β : Type} {x : Outcome α} {f : α → Parser → Outcome β} {b : β}
    {s' : Parser} {trail : Trail} (hbind : x.bind f = .done (.ok b) s' trail)
    (hclean : ∀ event ∈ trail.events, event.is_swallowed = false) :
    x.Settled ∧ ∃ a s'' first, x = .done (.ok a) s'' first := by
  have hsettled : (x.bind f).Settled := by
    rw [hbind]
    exact ⟨fun _ => rfl, hclean⟩
  cases x with
  | overflow => cases hbind
  | done result s'' first =>
    cases result with
    | error e => cases hbind
    | ok a => exact ⟨⟨fun _ => rfl, (avoids_after hsettled).1⟩, a, s'', first, rfl⟩

/-- Where the operand behind the operator parses and gives up no branch at the recursion limit, the
    lookahead finds it, one level higher. -/
theorem operand_ahead_of_operand {s s' : Parser} {t : Token} {rest : List Token}
    (hahead : s.ahead source = t :: rest) {min_bp : Nat} {right : Expr A} {trail : Trail}
    (hoperand : enter_recursion limit
      (exec features o source limit frames (.parse_expr_bp_inner min_bp))
        { s with pos := s.pos + 1 } = .done (.ok right) s' trail)
    (hclean : ∀ event ∈ trail.events, event.is_swallowed = false) :
    ∃ s'' first,
      exec features o source limit frames .operand_ahead s = .done (.ok ()) s'' first := by
  cases frames with
  | zero =>
    unfold enter_recursion at hoperand
    split at hoperand <;> cases hoperand
  | succ frames =>
    unfold enter_recursion at hoperand
    split at hoperand
    · cases hoperand
    · split at hoperand
      · cases hoperand
      · next result inner trail' hrun =>
        cases hoperand
        obtain ⟨f, hfirst⟩ := @exec_parse_expr_bp_inner _ _ _ features o source limit frames min_bp
          { s with pos := s.pos + 1, recursion_depth := s.recursion_depth + 1 }
        rw [hfirst] at hrun
        obtain ⟨hsettled, a, s'', first, hparsed⟩ := settled_of_bind hrun hclean
        -- One level deeper under a limit larger by one is the place of the lookahead.
        have hlarger := exec_limit_mono (grammar features o) source (Nat.le_succ limit) frames
          Proc.parse_prefix _ hsettled
        have hdeepened := (@exec_deepened 1 limit source (grammar features o) frames Proc.parse_prefix
          { s with pos := s.pos + 1 }).same
        have hsame : (exec features o source limit frames Proc.parse_prefix
            { s with pos := s.pos + 1 }).deepen 1 = .done (.ok a) s'' first :=
          hdeepened.symm.trans (hlarger.trans hparsed)
        obtain ⟨hstep, -⟩ := step_of_ahead hahead
        rw [exec_operand_ahead, hstep, ok_bind]
        cases hplain : exec features o source limit frames Proc.parse_prefix
            { s with pos := s.pos + 1 } with
        | overflow =>
          rw [hplain] at hsame
          cases hsame
        | done result plain trail'' =>
          rw [hplain] at hsame
          cases hsame
          exact ⟨plain, _, rfl⟩

/-! ## The turn and the lookahead -/

variable (features o) in
/-- An operand begins behind the operator at the front: its first token opens one, or a primary
    parses there. -/
def OperandBehind (source : List Token) (limit frames : Nat) (s : Parser) (rest : List Token) :
    Prop :=
  opens_primary rest.head? = true ∨
    ∃ s' trail, exec features o source limit frames .operand_ahead s = .done (.ok ()) s' trail

/-- Where a parser stands, and whether it reads a restricted expression. -/
structure SamePlace (s s' : Parser) : Prop where
  pos : s'.pos = s.pos
  recursion_depth : s'.recursion_depth = s.recursion_depth
  clause_marks : s'.clause_marks = s.clause_marks
  restricted : s'.modes .RestrictBExpr = s.modes .RestrictBExpr

theorem SamePlace.ahead {s s' : Parser} (hplace : SamePlace s s') :
    s'.ahead source = s.ahead source := by
  unfold Parser.ahead
  rw [hplace.pos]

/-- What the lookahead finds, and that it takes nothing. -/
theorem exec_probe {p : Proc P} {s s' : Parser} {result : Except method.ParseError (Proc.Ret A R p)}
    {trail : Trail} (hrun : exec features o source limit frames p s = .done result s' trail) :
    ∃ s'' events, SamePlace s s'' ∧
      probe (exec features o source limit frames p) s = .done (.ok result.isOk) s'' events := by
  have hframed := (framed_rule source limit).exec (grammar features o) frames p s
  rw [show (grammar features o).exec source limit frames p s = _ from hrun] at hframed
  refine ⟨s'.rewind s true, _, ⟨rfl, hframed.depth, ?_, ?_⟩, by rw [probe, hrun]⟩
  · exact take_length_of_start hframed.marks
  · exact hframed.modes .RestrictBExpr (.inl (by simp))

theorem InfixReading.of_same_place {s s' : Parser} {rest : List Token} {lhs : Expr A}
    {grouped : Bool} {op : Operator} {bp : BindingPower} {node : Expr A → Expr A}
    (hplace : SamePlace s s') (hreading : InfixReading features o s rest lhs grouped op bp node) :
    InfixReading features o s' rest lhs grouped op bp node := by
  cases hreading with
  | bare hcustom hbare => exact .bare hcustom hbare
  | binary hbare hmeans hrestricted hchain hquantifier =>
    refine .binary hbare hmeans ?_ hchain ?_
    · rw [hplace.restricted]
      exact hrestricted
    · rw [hplace.restricted]
      exact hquantifier

section

variable {s : Parser} {op : Operator} {rest : List Token} {min_bp : Nat}

/-- Where an operand begins the turn goes on to the infix operators, from the same place. -/
theorem climb_turn_of_operand (lhs : Expr A) (grouped : Bool)
    (hop : s.ahead source = .operator op :: rest)
    (hadmits : features.operator_syntax.postfix_operators = true)
    (hpower : min_bp ≤ features.binding_powers.any_operator.left)
    (hclass : expr.is_postfix_symbolic_operator op = true)
    (hbehind : OperandBehind features o source limit frames s rest) :
    ∃ s' trail, SamePlace s s' ∧
      (climb_turn features o min_bp lhs grouped).run source limit
          (exec features o source limit frames) s =
        ((infix_turn features o min_bp lhs grouped).run source limit
          (exec features o source limit frames) s').after trail := by
  have hfollows : ∃ s' trail, SamePlace s s' ∧
      (peek_operand_follows_operator : Method (Proc.Ret A R) Bool).run source limit
        (exec features o source limit frames) s = .done (.ok true) s' trail := by
    rw [run_peek_operand_follows_operator hop]
    split
    · exact ⟨s, {}, ⟨rfl, rfl, rfl, rfl⟩, rfl⟩
    · next hopens =>
      obtain ⟨s'', first, hparsed⟩ := hbehind.resolve_left hopens
      exact exec_probe hparsed
  obtain ⟨s', trail, hplace, hpeek⟩ := hfollows
  refine ⟨s', trail, hplace, ?_⟩
  rw [run_climb_turn lhs grouped hop hadmits hpower hclass, hpeek]
  simp only [Outcome.bind, if_true]
  rw [run_bind, run_look, ok_bind, hplace.ahead, hop, peek_operator_construct_operator]
  rfl

/-- Where no primary parses the turn builds a postfix operator and takes its token alone. -/
theorem climb_turn_of_no_operand (lhs : Expr A) (grouped : Bool)
    (hop : s.ahead source = .operator op :: rest)
    (hadmits : features.operator_syntax.postfix_operators = true)
    (hpower : min_bp ≤ features.binding_powers.any_operator.left)
    (hclass : expr.is_postfix_symbolic_operator op = true)
    (hopens : opens_primary rest.head? = false) {e : method.ParseError} {s' : Parser} {trail : Trail}
    (hfailed : exec features o source limit frames .operand_ahead s = .done (.error e) s' trail) :
    ∃ s'' events, SamePlace s s'' ∧
      (climb_turn features o min_bp lhs grouped).run source limit
          (exec features o source limit frames) s =
        .done (.ok (some (.PostfixOperator lhs op))) { s'' with pos := s''.pos + 1 } events := by
  obtain ⟨s'', events, hplace, hprobe⟩ := exec_probe hfailed
  obtain ⟨hstep, -⟩ := step_of_ahead (hplace.ahead.trans hop)
  rw [run_climb_turn lhs grouped hop hadmits hpower hclass,
    run_peek_operand_follows_operator hop, hopens, if_neg Bool.false_ne_true, hprobe]
  simp only [Outcome.bind, Except.isOk, Except.toBool, Bool.false_eq_true, if_false, hstep]
  exact ⟨s'', _, hplace, rfl⟩

/-- An operator of another kind, or one that binds less than the climb asks for, is never taken for
    a postfix one. -/
theorem climb_turn_of_other (lhs : Expr A) (grouped : Bool)
    (hop : s.ahead source = .operator op :: rest)
    (hother : ¬ (expr.is_postfix_symbolic_operator op = true ∧
      min_bp ≤ features.binding_powers.any_operator.left)) :
    (climb_turn features o min_bp lhs grouped).run source limit
        (exec features o source limit frames) s =
      (infix_turn features o min_bp lhs grouped).run source limit
        (exec features o source limit frames) s := by
  unfold climb_turn
  rw [run_bind, run_look, ok_bind, hop, peek_keyword_turn_operator]
  simp only [Bool.false_eq_true, if_false]
  have hrest : (do
      if ← look (expr.peek_operator_construct features) then
        return (← o.construct_turn min_bp lhs).map Expr.Primary
      infix_turn features o min_bp lhs grouped).run source limit
        (exec features o source limit frames) s =
      (infix_turn features o min_bp lhs grouped).run source limit
        (exec features o source limit frames) s := by
    rw [run_bind, run_look, ok_bind, hop, peek_operator_construct_operator]
    rfl
  split
  · next hlooks =>
    simp only [Bool.and_eq_true, decide_eq_true_eq] at hlooks
    have hclass : expr.is_postfix_symbolic_operator op = false := by
      by_contra hclass
      exact hother ⟨Bool.eq_true_of_not_eq_false hclass, hlooks.2⟩
    have hnone : (peek_postfix_symbolic_operator : Method (Proc.Ret A R) (Option Operator)).run
        source limit (exec features o source limit frames) s = .done (.ok none) s {} := by
      unfold peek_postfix_symbolic_operator
      rw [run_bind, run_look, ok_bind, hop]
      simp only [List.head?_cons, hclass, Bool.false_eq_true, if_false]
      rfl
    rw [run_bind, hnone, ok_bind]
    exact hrest
  · rw [run_bind, run_pure, ok_bind]
    exact hrest

/-- A turn builds a postfix operator only where the lookahead ends in an error. -/
theorem postfix_of_climb_turn {lhs : Expr A} {grouped : Bool} {op' : Operator} {s' : Parser}
    {trail : Trail} (hop : s.ahead source = .operator op :: rest)
    (hadmits : features.operator_syntax.postfix_operators = true)
    (hturn : (climb_turn features o min_bp lhs grouped).run source limit
      (exec features o source limit frames) s =
        .done (.ok (some (.PostfixOperator lhs op'))) s' trail) :
    (op' = op ∧ expr.is_postfix_symbolic_operator op = true ∧
      min_bp ≤ features.binding_powers.any_operator.left ∧
      ¬ OperandBehind features o source limit frames s rest) ∧
    SamePlace { s with pos := s.pos + 1 } s' := by
  have hnever {s s' : Parser} {trail : Trail} :
      (infix_turn features o min_bp lhs grouped).run source limit
        (exec features o source limit frames) s ≠
          .done (.ok (some (.PostfixOperator lhs op'))) s' trail :=
    fun hrun => (infix_turn_yields min_bp lhs grouped).run hrun op' rfl
  by_cases hkind : expr.is_postfix_symbolic_operator op = true ∧
      min_bp ≤ features.binding_powers.any_operator.left
  · obtain ⟨hclass, hpower⟩ := hkind
    have hbehind : ¬ OperandBehind features o source limit frames s rest := by
      intro hbehind
      obtain ⟨s'', first, -, hrun⟩ := climb_turn_of_operand lhs grouped hop hadmits hpower hclass
        hbehind
      rw [hrun] at hturn
      cases hmeant : (infix_turn features o min_bp lhs grouped).run source limit
          (exec features o source limit frames) s'' with
      | overflow =>
        rw [hmeant] at hturn
        cases hturn
      | done result after rest =>
        rw [hmeant] at hturn
        cases hturn
        exact hnever hmeant
    have hopens : opens_primary rest.head? = false :=
      Bool.eq_false_of_not_eq_true fun hopens => hbehind (.inl hopens)
    cases hrun : exec features o source limit frames .operand_ahead s with
    | overflow =>
      rw [run_climb_turn lhs grouped hop hadmits hpower hclass,
        run_peek_operand_follows_operator hop, hopens, if_neg Bool.false_ne_true, probe, hrun]
        at hturn
      cases hturn
    | done result after events =>
      cases result with
      | ok found => exact absurd (.inr ⟨after, events, hrun⟩) hbehind
      | error e =>
        obtain ⟨s'', events, hplace, hbuilt⟩ := climb_turn_of_no_operand lhs grouped hop hadmits
          hpower hclass hopens hrun
        rw [hbuilt] at hturn
        cases hturn
        exact ⟨⟨rfl, hclass, hpower, hbehind⟩,
          ⟨congrArg (· + 1) hplace.pos, hplace.recursion_depth, hplace.clause_marks,
            hplace.restricted⟩⟩
  · rw [climb_turn_of_other lhs grouped hop hkind] at hturn
    exact absurd hturn hnever

end

end

/-! ## Names and groups -/

/-- The operands that are a name or an expression in parentheses. -/
def names : Operands (List Char) (fun p : Empty => nomatch p) where
  parse_prefix := do
    match ← look List.head? with
    | some (.word name) =>
      .step .advance
      return ⟨.Primary name, false⟩
    | some .lparen =>
      .step .advance
      let inner ← parse_expr_bp 0
      if ← look fun ts => ts.head? == some .rparen then
        .step .advance
        return ⟨inner, true⟩
      else
        .act (.unexpected "`)`") nofun
    | _ => .act (.unexpected "an expression") nofun
  body p := nomatch p
  keyword_turn _ _ _ := return none
  construct_turn _ _ := return none
  hook_turn _ _ _ := return none
  parse_quantified_operator_tail _ _ := .act (.unexpected "an expression") nofun
  lhs_chains_nonassoc _ _ := false
  lambda_params _ _ := none

end squonk.parser.climb
