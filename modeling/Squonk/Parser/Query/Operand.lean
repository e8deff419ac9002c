import Squonk.Dialect.Presets
import Squonk.Parser.Query.Flatten

/-!
# What a parenthesized operand becomes

The parser's tree of a set expression is the flattening of the tree its source spells.
-/

open squonk.ast squonk.tokenizer squonk.dialect

namespace squonk.parser

/-- Wherever `x` succeeds, `y` stops in the same state with a value that `f` takes to that of
`x`. -/
def Mirrors {α β : Type} (f : β → α) (x : ParseResult α) (y : ParseResult β) : Prop :=
  ∀ s a s', x s = .ok a s' → ∃ b, y s = .ok b s' ∧ f b = a

namespace Mirrors

variable {α β γ δ : Type}

theorem refl (x : ParseResult α) : Mirrors id x x :=
  fun _ a _ h => ⟨a, h, rfl⟩

theorem pure (f : β → α) (b : β) : Mirrors f (Pure.pure (f b)) (Pure.pure b) := by
  intro s a s' h
  obtain ⟨rfl, rfl⟩ := ParseResult.pure_ok.mp h
  exact ⟨b, ParseResult.pure_ok.mpr ⟨rfl, rfl⟩, rfl⟩

theorem throw (f : β → α) (e : ParseError) (y : ParseResult β) :
    Mirrors f (MonadExcept.throw e) y :=
  fun _ _ _ h => (ParseResult.throw_ok.mp h).elim

theorem unexpected (f : β → α) (expected : String) (y : ParseResult β) :
    Mirrors f (parser.unexpected expected) y :=
  throw f _ y

theorem bind {f : β → α} {g : δ → γ} {x : ParseResult α} {y : ParseResult β}
    {k : α → ParseResult γ} {l : β → ParseResult δ} (hx : Mirrors f x y)
    (hk : ∀ b, Mirrors g (k (f b)) (l b)) : Mirrors g (x >>= k) (y >>= l) := by
  intro s c s' h
  obtain ⟨a, t, ha, hc⟩ := ParseResult.bind_ok.mp h
  obtain ⟨b, hb, rfl⟩ := hx s a t ha
  obtain ⟨d, hd, rfl⟩ := hk b t c s' hc
  exact ⟨d, ParseResult.bind_ok.mpr ⟨b, t, hb, hd⟩, rfl⟩

/-- The two runs share a step. -/
theorem step {g : δ → γ} {x : ParseResult α} {k : α → ParseResult γ} {l : α → ParseResult δ}
    (hk : ∀ a, Mirrors g (k a) (l a)) : Mirrors g (x >>= k) (x >>= l) :=
  bind (refl x) hk

theorem ite {f : β → α} {c : Prop} [Decidable c] {x₁ x₂ : ParseResult α}
    {y₁ y₂ : ParseResult β} (h₁ : Mirrors f x₁ y₁) (h₂ : Mirrors f x₂ y₂) :
    Mirrors f (if c then x₁ else x₂) (if c then y₁ else y₂) := by
  split
  · exact h₁
  · exact h₂

/-- A part that `f` leaves as it is. -/
theorem leaf {f : β → β} (x : ParseResult α) {c : α → β} (hc : ∀ a, f (c a) = c a) :
    Mirrors f (x >>= fun a => Pure.pure (c a)) (x >>= fun a => Pure.pure (c a)) := by
  refine step fun a => ?_
  simpa only [hc] using pure f (c a)

/-- A check that fails or does nothing. -/
theorem check {g : δ → γ} {c : Prop} [Decidable c] {x : ParseResult PUnit}
    {k : PUnit → ParseResult γ} {l : PUnit → ParseResult δ} (hk : ∀ u, Mirrors g (k u) (l u)) :
    Mirrors g (if c then x >>= k else k ⟨⟩) (if c then x >>= l else l ⟨⟩) :=
  ite (step hk) (hk ⟨⟩)

end Mirrors

variable {L : Leaves} (G : Grammar L) (features : FeatureSet)

/-- The query that a source spells, with the parentheses of every operand kept. -/
def parse_written_query (depth : Nat) : ParseResult (Query L) :=
  match depth with
  | 0 => throw .recursion_limit_exceeded
  | depth + 1 =>
    parse_query_inner G features (parse_written_query depth) (parse_cte_body G features depth)
      fun _ => true

section Lockstep

variable {read written : ParseResult (Query L)}

theorem parse_parenthesized_set_operand_mirrors (h : Mirrors Query.flatten read written) :
    Mirrors SetExpr.flatten
      (parse_parenthesized_set_operand features read keeps_parentheses)
      (parse_parenthesized_set_operand features written fun _ => true) := by
  unfold parse_parenthesized_set_operand
  refine .step fun grouping => .check fun _ => .step fun _ => .step fun starts => .step fun paren =>
    .check fun _ => .step fun _ => .bind h fun query => .step fun _ => .check fun _ => ?_
  rw [query.keeps_parentheses_flatten]
  intro s e s' he
  refine ⟨.Query query, ?_, ?_⟩
  · split at he <;> obtain ⟨-, rfl⟩ := ParseResult.pure_ok.mp he <;> rfl
  · rw [SetExpr.flatten]
    split at he <;> rename_i hk <;> obtain ⟨rfl, -⟩ := ParseResult.pure_ok.mp he <;> simp [hk]

theorem parse_set_operand_mirrors (h : Mirrors Query.flatten read written) :
    Mirrors SetExpr.flatten
      (parse_set_operand G features read keeps_parentheses)
      (parse_set_operand G features written fun _ => true) := by
  unfold parse_set_operand
  have hselect : ∀ select : L.Select, (SetExpr.Select select).flatten = .Select select :=
    fun _ => by rw [SetExpr.flatten]
  refine .step fun _ => .ite (.leaf _ hselect) ?_
  refine .step fun _ => .ite (.leaf _ hselect) ?_
  refine .step fun _ => .ite (.leaf _ fun _ => by rw [SetExpr.flatten]) ?_
  refine .step fun _ => .ite (.leaf _ hselect) ?_
  refine .step fun _ => .ite (.leaf _ fun _ => by rw [SetExpr.flatten]) ?_
  refine .step fun _ => .ite (.leaf _ fun _ => by rw [SetExpr.flatten]) ?_
  exact .step fun _ => .ite (parse_parenthesized_set_operand_mirrors features h)
    (.unexpected _ _ _)

theorem parse_set_expr_bp_mirrors (h : Mirrors Query.flatten read written) (fuel : Nat) :
    (∀ min_bp, Mirrors SetExpr.flatten
      (parse_set_expr_bp G features read keeps_parentheses fuel min_bp)
      (parse_set_expr_bp G features written (fun _ => true) fuel min_bp)) ∧
    ∀ min_bp body, Mirrors SetExpr.flatten
      (set_operations G features read keeps_parentheses fuel min_bp body.flatten)
      (set_operations G features written (fun _ => true) fuel min_bp body) := by
  induction fuel with
  | zero =>
    refine ⟨fun min_bp => ?_, fun min_bp body => ?_⟩
    · simp only [parse_set_expr_bp]
      exact .unexpected _ _ _
    · simp only [set_operations]
      exact .pure _ body
  | succ fuel ih =>
    obtain ⟨ihexpr, ihloop⟩ := ih
    refine ⟨fun min_bp => ?_, fun min_bp body => ?_⟩
    · simp only [parse_set_expr_bp]
      refine .step fun _ => .step fun _ => .check fun _ => ?_
      refine .bind (parse_set_operand_mirrors G features h) fun body => .step fun _ => ?_
      exact .ite (.pure _ body) (ihloop min_bp body)
    · simp only [set_operations]
      refine .step fun op => ?_
      cases op with
      | none => exact .pure _ body
      | some op =>
        refine .ite (.pure _ body) ?_
        refine .step fun _ => .step fun all => .step fun by_name => .bind (ihexpr _) fun right => ?_
        have hop : (SetExpr.SetOperation op all by_name body right).flatten =
            .SetOperation op all by_name body.flatten right.flatten := by rw [SetExpr.flatten]
        rw [← hop]
        exact ihloop min_bp _

theorem parse_query_after_with_mirrors (h : Mirrors Query.flatten read written)
    (clause : Option (With L)) :
    Mirrors Query.flatten
      (parse_query_after_with G features read keeps_parentheses clause)
      (parse_query_after_with G features written (fun _ => true) clause) := by
  unfold parse_query_after_with parse_set_expr
  refine .bind (.step fun _ => (parse_set_expr_bp_mirrors G features h _).1 _) fun body => ?_
  have hmk : ∀ ob oba lb l st fmt lk po fc,
      Query.flatten ⟨clause, body, ob, oba, lb, l, st, fmt, lk, po, fc⟩ =
        ⟨clause, body.flatten, ob, oba, lb, l, st, fmt, lk, po, fc⟩ := by
    intros
    rw [Query.flatten]
  refine .step fun _ => .ite ?_ ?_
  · rw [← hmk]
    exact .pure _ _
  · refine .step fun order => .step fun lb => .step fun l => .step fun st => .step fun fmt =>
      .step fun lk => .step fun po => .step fun fc => .bind (f := id) ?_ fun _ => ?_
    · exact .refl _
    · rw [← hmk]
      exact .pure _ _

theorem parse_query_inner_mirrors (h : Mirrors Query.flatten read written)
    (cte_body : ParseResult (CteBody L)) :
    Mirrors Query.flatten
      (parse_query_inner G features read cte_body keeps_parentheses)
      (parse_query_inner G features written cte_body fun _ => true) := by
  unfold parse_query_inner
  exact .step fun _ => .step fun clause => .check fun _ =>
    parse_query_after_with_mirrors G features h clause

end Lockstep

/-- The query the parser returns is the flattening of the query the source spells. -/
theorem parse_query_mirrors (depth : Nat) :
    Mirrors Query.flatten (parse_query G features depth)
      (parse_written_query G features depth) := by
  induction depth with
  | zero =>
    simp only [parse_query]
    exact .throw _ _ _
  | succ depth ih =>
    simp only [parse_query, parse_written_query]
    exact parse_query_inner_mirrors G features ih _

/-! ## One operand -/

/-- What a parenthesized operand owes to the query inside: it is the bare body only if the query
carries no clause, and the query itself otherwise. -/
def KeepsClauses (query : Query L) (operand : SetExpr L) : Prop :=
  (operand = query.body → query.clauses = .empty) ∧
    (query.clauses ≠ .empty → operand = .Query query)

theorem keepsClauses_iff (query : Query L) :
    KeepsClauses query (if keeps_parentheses query then .Query query else query.body) ↔
      query.Guarded := by
  simp only [KeepsClauses, ← query.carries_clause_iff, ← query.carries_clause_eq_false_iff]
  have hne := query.body_ne_query
  cases hk : keeps_parentheses query with
  | true => simp [Query.Guarded, hk, hne.symm]
  | false =>
    cases hu : query.carries_unchecked <;>
      simp [Query.Guarded, Query.carries_clause, hk, hu, hne]

/-- The query between the parentheses, read in the state behind the opening one. -/
theorem parse_parenthesized_set_operand_ok {read : ParseResult (Query L)}
    {keeps : Query L → Bool} {s s' : State} {operand : SetExpr L}
    (h : parse_parenthesized_set_operand features read keeps s = .ok operand s') :
    ∃ query t, read { s with tokens := s.tokens.tail } = .ok query t ∧
      operand = if keeps query then .Query query else query.body := by
  unfold parse_parenthesized_set_operand at h
  simp only [ParseResult.bind_ok, take_paren_query_grouping_ok] at h
  obtain ⟨grouping, t, ⟨rfl, rfl⟩, h⟩ := h
  split at h
  · simp [ParseResult.bind_ok] at h
  simp only [ParseResult.bind_ok, advance_ok] at h
  obtain ⟨-, -, rfl, starts, t, hstarts, paren, t', hparen, h⟩ := h
  obtain rfl := peek_starts_query_ok features hstarts
  obtain ⟨-, rfl⟩ := peek_nth_is_ok.mp hparen
  split at h
  · simp [ParseResult.bind_ok] at h
  simp only [ParseResult.bind_ok, set_paren_query_grouping_ok] at h
  obtain ⟨-, -, rfl, query, t, hquery, -, t', -, h⟩ := h
  refine ⟨query, t, hquery, ?_⟩
  -- the state may still be marked before the operand is built
  have hpure : ∀ {u : State}, (if keeps query then pure (SetExpr.Query query)
      else pure query.body : ParseResult (SetExpr L)) u = .ok operand s' →
      operand = if keeps query then .Query query else query.body := by
    intro u hu
    split at hu <;> obtain ⟨rfl, -⟩ := ParseResult.pure_ok.mp hu <;> simp_all
  split at h
  · obtain ⟨-, t, -, h⟩ := ParseResult.bind_ok.mp h
    exact hpure h
  · exact hpure h

/-- A parenthesized operand as its source spells it. -/
def parse_written_operand (depth : Nat) : ParseResult (SetExpr L) :=
  parse_parenthesized_set_operand features (parse_written_query G features depth) fun _ => true

/-- A parenthesized operand as the parser returns it. -/
def parse_operand (depth : Nat) : ParseResult (SetExpr L) :=
  parse_parenthesized_set_operand features (parse_query G features depth) keeps_parentheses

theorem parse_operand_mirrors (depth : Nat) :
    Mirrors SetExpr.flatten (parse_operand G features depth)
      (parse_written_operand G features depth) :=
  parse_parenthesized_set_operand_mirrors features (parse_query_mirrors G features depth)

/-- The clauses of an operand survive exactly where the flattening test knows them: at the
operand itself, at every operand nested in it, and so between two sources of one tree. -/
theorem parse_operand_keeps_clauses_iff (depth : Nat) {s s' : State} {operand : SetExpr L}
    (h : parse_operand G features depth s = .ok operand s') :
    ∃ query t source,
      parse_query G features depth { s with tokens := s.tokens.tail } = .ok query t ∧
      parse_written_operand G features depth s = .ok source s' ∧
      (KeepsClauses query operand ↔ query.Guarded) ∧
      (operand.written = source.written ↔ source.Guarded) ∧
      ∀ s₂ s₂' source₂, parse_operand G features depth s₂ = .ok operand s₂' →
        parse_written_operand G features depth s₂ = .ok source₂ s₂' →
        source.Guarded → source₂.Guarded → source₂.written = source.written := by
  obtain ⟨query, t, hquery, rfl⟩ := parse_parenthesized_set_operand_ok features h
  obtain ⟨source, hsource, hflat⟩ := parse_operand_mirrors G features depth s _ s' h
  refine ⟨query, t, source, hquery, hsource, keepsClauses_iff query, ?_, ?_⟩
  · rw [← hflat]
    exact source.written_flatten_iff
  · intro s₂ s₂' source₂ h₂ hsource₂ hg hg₂
    obtain ⟨b, hb, hflat₂⟩ := parse_operand_mirrors G features depth s₂ _ s₂' h₂
    obtain rfl : b = source₂ := by simpa [hsource₂] using hb.symm
    calc b.written = b.flatten.written := (b.written_flatten_iff.mpr hg₂).symm
      _ = source.flatten.written := by rw [hflat₂, hflat]
      _ = source.written := source.written_flatten_iff.mpr hg

section Literals

/-- Queries over number literals. -/
def literalLeaves : Leaves where
  Ident := List Char
  ObjectName := List Char
  Literal := List Char
  Expr := List Char
  OrderByUsing := Unit
  Select := List Char
  Values := List Char
  Pivot := Unit
  Unpivot := Unit
  Dml := Unit
  PipeOperator := Unit

def read_word : ParseResult (List Char) := do
  match ← peek with
  | some (.word text) =>
    advance
    return text
  | _ => unexpected "an identifier"

def read_number : ParseResult (List Char) := do
  match ← peek with
  | some (.number text) =>
    advance
    return text
  | _ => unexpected "an expression"

def literalGrammar : Grammar literalLeaves where
  parse_ident := read_word
  parse_object_name := read_word
  expect_string_literal := unexpected
  parse_expr := read_number
  parse_star_or_expr := read_number
  parse_aexpr_const := read_number
  parse_limit_percent_operand := read_number
  parse_order_by_using_operator := unexpected "an operator"
  parse_format_name := read_word
  parse_pipe_operator := unexpected "a pipe operator"
  parse_select := do
    expect_keyword .Select
    read_number
  parse_table_command := unexpected "a table"
  parse_select_from_first := unexpected "a table"
  parse_values := do
    expect_keyword .Values
    read_number
  parse_pivot_operator := unexpected "a table"
  parse_unpivot_operator := unexpected "a table"
  parse_dml_statement := unexpected "a statement"
  peek_starts_dml := return false
  is_integer_literal _ := true
  is_parameter _ := false
  is_numeric_literal _ := true

def State.start (tokens : List Token) : State := ⟨tokens, 0, false, false⟩

/-- `SELECT 1 SETTINGS a = 1`. -/
def selectWithSettings : List Token :=
  [.keyword .Select, .number ['1'], .keyword .Settings, .word ['a'], .operator .Eq,
    .number ['1']]

/-- The settings of `(SELECT 1 SETTINGS a = 1)` are read and dropped: the tree is that of
`(SELECT 1)`. -/
theorem parse_operand_drops_settings :
    ∃ query t,
      parse_query literalGrammar .LENIENT 1 (.start (selectWithSettings ++ [.rparen])) =
        .ok query t ∧
      parse_operand literalGrammar .LENIENT 1
        (.start (.lparen :: selectWithSettings ++ [.rparen])) = .ok query.body (.start []) ∧
      parse_operand literalGrammar .LENIENT 1
        (.start [.lparen, .keyword .Select, .number ['1'], .rparen]) =
          .ok query.body (.start []) ∧
      ¬KeepsClauses query query.body := by
  refine ⟨_, _, rfl, rfl, rfl, ?_⟩
  rw [KeepsClauses, ← Query.carries_clause_eq_false_iff]
  simp [Query.carries_clause, Query.carries_unchecked]

/-- `(SELECT 1 LIMIT 2)` keeps its parentheses. -/
theorem parse_operand_keeps_limit :
    ∃ query t source,
      parse_query literalGrammar .LENIENT 1
        (.start [.keyword .Select, .number ['1'], .keyword .Limit, .number ['2'], .rparen]) =
          .ok query t ∧
      parse_written_operand literalGrammar .LENIENT 1
        (.start [.lparen, .keyword .Select, .number ['1'], .keyword .Limit, .number ['2'],
          .rparen]) = .ok source (.start []) ∧
      (KeepsClauses query (.Query query) ↔ query.Guarded) := by
  obtain ⟨query, t, source, hquery, hsource, hkeeps, -⟩ :=
    parse_operand_keeps_clauses_iff literalGrammar .LENIENT 1
      (s := .start [.lparen, .keyword .Select, .number ['1'], .keyword .Limit, .number ['2'],
        .rparen]) rfl
  cases hquery
  exact ⟨_, _, source, rfl, hsource, hkeeps⟩

end Literals

end squonk.parser
