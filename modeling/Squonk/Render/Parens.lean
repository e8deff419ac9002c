import Squonk.Parser.Expr.Refines
import Squonk.Render.Ranks

/-!
# Parentheses against powers

What the renderer's rule for the parentheses of an operator's operand says about the powers the
parser reads the operand at.
-/

open squonk.ast squonk.tokenizer squonk.dialect squonk.precedence squonk.parser.expr climbing

namespace squonk.render

variable {features : FeatureSet} {ranks : List BindingPower} {parent child : BinaryOperator}

/-- What the rules for parentheses rely on in a dialect. -/
structure Grouping (features : FeatureSet) (ranks : List BindingPower) : Prop extends
    Ranked features ranks, Regular features where
  equality : features.operator_syntax.is_general_equality = true → RankedEquality features ranks
  symbol : features.operator_syntax.postfix_operators = true → ∀ token op,
    infix_of op = .symbol token op → is_postfix_symbolic_operator token = true →
      (features.binding_power op).left = features.binding_powers.any_operator.left
  sign : ∀ a ∈ ranks, ∀ op, is_sign op = true → a.left < features.prefix_binding_power op

/-- The operators that a symbol writes which may be postfix. -/
theorem mem_of_postfix_symbol {token : Operator} {op : BinaryOperator}
    (ho : infix_of op = .symbol token op) (htoken : is_postfix_symbolic_operator token = true) :
    op ∈ [BinaryOperator.StringConcat, .Overlap, .Contains, .ContainedBy, .StartsWith, .BitwiseOr,
      .BitwiseAnd, .BitwiseShiftLeft, .BitwiseShiftRight] := by
  have hall : (match infix_of op with
      | .symbol token _ => is_postfix_symbolic_operator token
      | _ => false) = true →
      op ∈ [BinaryOperator.StringConcat, .Overlap, .Contains, .ContainedBy, .StartsWith,
        .BitwiseOr, .BitwiseAnd, .BitwiseShiftLeft, .BitwiseShiftRight] := by
    cases op with
    | Modulo spelling | IntegerDivide spelling | BitwiseXor spelling | Eq spelling
    | NotEq spelling | IsDistinctFrom spelling | IsNotDistinctFrom spelling | Regexp spelling =>
      cases spelling <;> decide
    | _ => decide
  rw [ho] at hall
  exact hall htoken

theorem builtin_grouping (dialect : BuiltinDialect) :
    Grouping dialect.features (dialect_ranks dialect) where
  toRanked := builtin_ranked dialect
  toRegular := builtin_regular dialect
  equality := builtin_ranked_equality dialect
  symbol := by
    intro hpostfix token op ho htoken
    have hmem := mem_of_postfix_symbol ho htoken
    clear ho htoken
    cases dialect
    case DuckDb | Lenient =>
      revert op
      decide
    all_goals cases hpostfix
  sign := by
    intro a ha op hop
    revert a
    cases op
    case Minus | Plus => cases dialect <;> decide
    all_goals cases hop

theorem general_equality {op : BinaryOperator} (h : Admits features op)
    (hequality : is_equality op = true) : features.operator_syntax.is_general_equality = true := by
  cases op with
  | IsDistinctFrom spelling =>
    cases spelling
    · cases hequality
    · exact h
  | IsNotDistinctFrom spelling =>
    cases spelling
    · cases hequality
    · cases hequality
    · exact h
  | _ => cases hequality

theorem binding_power_equality {op : BinaryOperator} (h : is_equality op = true) :
    features.binding_power op = features.binding_powers.comparison := by
  cases op with
  | IsDistinctFrom spelling => cases spelling <;> first | rfl | cases h
  | IsNotDistinctFrom spelling => cases spelling <;> first | rfl | cases h
  | _ => cases h

/-- An operator is read at no higher power than the table gives it. -/
theorem left_le_binding_power (hgrouping : Grouping features ranks) {op : BinaryOperator}
    (h : Admits features op) :
    (reader features).left ( infix_of op) ≤ (features.binding_power op).left := by
  rw [left_infix_of]
  cases hequality : is_equality op with
  | false => simp
  | true =>
    rw [if_pos rfl, binding_power_equality hequality]
    exact (hgrouping.equality (general_equality h hequality)).left_le

/-- Ranks that are not below another's left power are at least that rank. -/
theorem left_le_of_right_le (hranked : Ranked features ranks) {a b : BindingPower} (ha : a ∈ ranks)
    (hb : b ∈ ranks) (h : a.left ≤ b.right) : a.left ≤ b.left := by
  by_contra hlt
  have hapart := hranked.apart b hb a ha (by omega)
  omega

/-- The operators of one rank that a left operand keeps no parentheses against associate to the
left. -/
theorem assoc_of_free (hfree : features.binding_powers.needs_parens parent child .Left = false)
    (hsame : features.binding_power parent = features.binding_power child) :
    (features.binding_power parent).assoc = .Left := by
  have hparent' : features.binding_powers.binary parent = features.binding_powers.binary child :=
    hsame
  unfold BindingPowerTable.needs_parens needs_parens_between at hfree
  rw [← hparent'] at hfree
  change (features.binding_powers.binary parent).assoc = .Left
  cases hassoc : (features.binding_powers.binary parent).assoc with
  | Left => rfl
  | Right => simp [hassoc] at hfree
  | NonAssoc => simp [hassoc] at hfree

/-- A right operand in parentheses is below the power behind its parent, by the table. -/
theorem left_lt_of_parens (hwidth : (features.binding_power parent).left <
    (features.binding_power parent).right)
    (hneeds : features.binding_powers.needs_parens parent child .Right = true) :
    (features.binding_power child).left < (features.binding_power parent).right := by
  unfold BindingPowerTable.needs_parens needs_parens_between at hneeds
  simp only [Bool.or_eq_true, decide_eq_true_eq, Bool.and_eq_true, beq_iff_eq] at hneeds
  change (features.binding_power child).left < (features.binding_power parent).right ∨
    ((features.binding_power parent).left = (features.binding_power child).left ∧ _) ∧ _ at hneeds
  omega

section Operands

variable (hgrouping : Grouping features ranks) (hparent : Admits features parent)
  (hchild : Admits features child)

include hgrouping hparent hchild

/-! ## On the left -/

/-- A left operand without parentheses binds at least as tightly as its parent, by the table. -/
theorem binding_power_le_of_free
    (hfree : features.binding_powers.needs_parens parent child .Left = false) :
    (features.binding_power parent).left ≤ (features.binding_power child).left := by
  unfold BindingPowerTable.needs_parens needs_parens_between at hfree
  simp only [Bool.or_eq_false_iff, decide_eq_false_iff_not, not_lt] at hfree
  exact left_le_of_right_le hgrouping.toRanked (hgrouping.mem parent hparent)
    (hgrouping.mem child hchild) hfree.1

theorem left_lt_right_of_free
    (hfree : features.binding_powers.needs_parens parent child .Left = false) :
    (reader features).left ( infix_of parent) < (reader features).right ( infix_of child) := by
  have hle := binding_power_le_of_free hgrouping hparent hchild hfree
  have hread := left_le_binding_power hgrouping hparent
  have hwidth := hgrouping.width _ (hgrouping.mem child hchild)
  rw [right_infix_of]
  omega

/-- A left operand without parentheses is read at no lower power than its parent. -/
theorem left_le_left_of_free
    (hfree : features.binding_powers.needs_parens parent child .Left = false) :
    (reader features).left ( infix_of parent) ≤ (reader features).left ( infix_of child) := by
  have hle := binding_power_le_of_free hgrouping hparent hchild hfree
  have hread := left_le_binding_power hgrouping hparent
  cases hequality : is_equality child with
  | false =>
    rw [left_infix_of child, hequality, if_neg Bool.false_ne_true]
    omega
  | true =>
    have hrank := @binding_power_equality features child hequality
    have hranked := hgrouping.equality (general_equality hchild hequality)
    rw [left_infix_of child, hequality, if_pos rfl]
    rcases hranked.eq_or_lt with heq | ⟨hlt, -, hnonassoc⟩
    · rw [heq, ← hrank]
      omega
    · -- a parent of the comparisons' rank does not associate
      have hne : (features.binding_power parent).left ≠ (features.binding_power child).left := by
        intro hleft
        have hsame := hgrouping.assoc_eq _ (hgrouping.mem parent hparent) _
          (hgrouping.mem child hchild) hleft
        have hassoc := assoc_of_free hfree hsame
        rw [hsame, hrank, hnonassoc] at hassoc
        cases hassoc
      rw [hrank] at hle hne
      have hgap := hranked.left_gap _ (hgrouping.mem parent hparent) (by omega)
      omega

/-- A left operand without parentheses does not chain with its parent. -/
theorem not_chained_of_free
    (hfree : features.binding_powers.needs_parens parent child .Left = false) (l r : Expr) :
    reject_nonassoc_chain features (.BinaryOp l child r) (rank features (.inl ( infix_of parent)))
      false = false := by
  have hle := binding_power_le_of_free hgrouping hparent hchild hfree
  by_contra hchains
  rw [Bool.not_eq_false] at hchains
  simp only [reject_nonassoc_chain, lhs_chains_nonassoc, Bool.and_eq_true, beq_iff_eq] at hchains
  obtain ⟨⟨hassoc, -⟩, -, hleft⟩ := hchains
  rw [rank_infix_of] at hassoc hleft
  cases hequality : is_equality parent with
  | false =>
    rw [hequality, if_neg Bool.false_ne_true] at hassoc hleft
    have hsame := hgrouping.assoc_eq _ (hgrouping.mem parent hparent) _
      (hgrouping.mem child hchild) hleft.symm
    rw [assoc_of_free hfree hsame] at hassoc
    cases hassoc
  | true =>
    rw [hequality, if_pos rfl] at hassoc hleft
    have hrank := @binding_power_equality features parent hequality
    rcases (hgrouping.equality (general_equality hparent hequality)).eq_or_lt with heq | ⟨hlt, -⟩
    · have hsame := hgrouping.assoc_eq _ (hgrouping.mem parent hparent) _
        (hgrouping.mem child hchild) (by rw [hrank, hleft, heq])
      rw [← heq.symm, ← hrank, assoc_of_free hfree hsame] at hassoc
      cases hassoc
    · rw [hrank] at hle
      omega

/-- The parentheses of a left operand are needed, but where an equality `IS` below the
comparisons follows a comparison. -/
theorem misread_of_parens (hneeds : features.binding_powers.needs_parens parent child .Left = true)
    (hspare : is_equality parent = true →
      features.binding_power child = features.binding_powers.comparison →
      features.binding_powers.predicate = features.binding_powers.comparison) (l r : Expr) :
    (reader features).right ( infix_of child) ≤ (reader features).left ( infix_of parent) ∨
      reject_nonassoc_chain features (.BinaryOp l child r)
        (rank features (.inl ( infix_of parent))) false = true := by
  have hp := hgrouping.mem parent hparent
  have hc := hgrouping.mem child hchild
  have hcases : (features.binding_power child).right < (features.binding_power parent).left ∨
      features.binding_power parent = features.binding_power child ∧
        (features.binding_power parent).assoc = .NonAssoc := by
    have hright := hgrouping.not_right _ hp
    unfold BindingPowerTable.needs_parens needs_parens_between at hneeds
    simp only [Bool.or_eq_true, decide_eq_true_eq, Bool.and_eq_true, beq_iff_eq] at hneeds
    rcases hneeds with hbelow | ⟨⟨hleft, -⟩, hassoc⟩
    · exact Or.inl hbelow
    · refine Or.inr ⟨hgrouping.assoc_eq _ hp _ hc hleft, ?_⟩
      cases hkind : (features.binding_powers.binary parent).assoc with
      | Left => rw [hkind] at hassoc; cases hassoc
      | Right => exact absurd hkind hright
      | NonAssoc => exact hkind
  have hchains : ∀ bp : BindingPower, bp.assoc = .NonAssoc → features.binding_power child = bp →
      reject_nonassoc_chain features (.BinaryOp l child r) bp false = true := by
    intro bp hassoc hsame
    simp [reject_nonassoc_chain, lhs_chains_nonassoc, hsame, hassoc]
  rw [right_infix_of, left_infix_of, rank_infix_of]
  cases hequality : is_equality parent with
  | false =>
    rw [if_neg Bool.false_ne_true, if_neg Bool.false_ne_true]
    rcases hcases with hbelow | ⟨hsame, hassoc⟩
    · exact Or.inl (Nat.le_of_lt hbelow)
    · exact Or.inr (hchains _ hassoc hsame.symm)
  | true =>
    rw [if_pos rfl, if_pos rfl]
    have hrank := @binding_power_equality features parent hequality
    have hranked := hgrouping.equality (general_equality hparent hequality)
    rw [hrank] at hcases
    rcases hranked.eq_or_lt with heq | ⟨hlt, hnonassoc, -⟩
    · rw [heq]
      rcases hcases with hbelow | ⟨hsame, hassoc⟩
      · exact Or.inl (Nat.le_of_lt hbelow)
      · exact Or.inr (hchains _ hassoc hsame.symm)
    · rcases hcases with hbelow | ⟨hsame, -⟩
      · rcases hranked.right_gap _ hc (Nat.le_of_lt hbelow) with hgap | hsame
        · exact Or.inl hgap
        · exact Or.inr (hchains _ hnonassoc hsame)
      · rw [hspare hequality hsame.symm] at hlt
        exact absurd hlt (Nat.lt_irrefl _)

/-! ## On the right -/

theorem left_lt_right_of_parens
    (hneeds : features.binding_powers.needs_parens parent child .Right = true) :
    (reader features).left ( infix_of child) < (reader features).right ( infix_of parent) := by
  have hread := left_le_binding_power hgrouping hchild
  have hlt := left_lt_of_parens (hgrouping.width _ (hgrouping.mem parent hparent)) hneeds
  rw [right_infix_of]
  omega

/-- A right operand without parentheses is read at the power behind its parent, but for an
equality `IS` behind a test of a lower rank. -/
theorem right_le_left_of_free
    (hfree : features.binding_powers.needs_parens parent child .Right = false)
    (hspare : is_equality child = true →
      features.binding_power parent = features.binding_powers.predicate →
      features.binding_powers.predicate = features.binding_powers.comparison) :
    (reader features).right ( infix_of parent) ≤ (reader features).left ( infix_of child) := by
  have hle : (features.binding_power parent).right ≤ (features.binding_power child).left := by
    unfold BindingPowerTable.needs_parens needs_parens_between at hfree
    simp only [Bool.or_eq_false_iff, decide_eq_false_iff_not, not_lt] at hfree
    exact hfree.1
  rw [right_infix_of]
  cases hequality : is_equality child with
  | false => rwa [left_infix_of, hequality, if_neg Bool.false_ne_true]
  | true =>
    have hrank := @binding_power_equality features child hequality
    have hranked := hgrouping.equality (general_equality hchild hequality)
    rw [left_infix_of, hequality, if_pos rfl]
    rw [hrank] at hle
    rcases hranked.right_gap _ (hgrouping.mem parent hparent) hle with hgap | hsame
    · exact hgap
    · rw [hspare hequality hsame]
      exact hle

omit hparent in
theorem right_lt_right_of_free
    (hfree : features.binding_powers.needs_parens parent child .Right = false) :
    (reader features).right ( infix_of parent) < (reader features).right ( infix_of child) := by
  have hwidth := hgrouping.width _ (hgrouping.mem child hchild)
  have hle : (features.binding_power parent).right ≤ (features.binding_power child).left := by
    unfold BindingPowerTable.needs_parens needs_parens_between at hfree
    simp only [Bool.or_eq_false_iff, decide_eq_false_iff_not, not_lt] at hfree
    exact hfree.1
  rw [right_infix_of, right_infix_of]
  omega

end Operands

/-! ## Behind a prefix operator -/

/-- An operand without parentheses is at least as tight as the prefix operator, by the table. -/
theorem prefix_le_of_free {op : UnaryOperator} {l r : Expr}
    (hfree : prefix_operand_needs_parens features.binding_powers op (.BinaryOp l child r) = false) :
    features.prefix_binding_power op ≤ (features.binding_power child).left :=
  Nat.le_of_not_lt (of_decide_eq_false hfree)

/-- An operand without parentheses is read at the prefix operator's power. -/
theorem prefix_le_left_of_free (hgrouping : Grouping features ranks) (hchild : Admits features child)
    {op : UnaryOperator} {l r : Expr}
    (hfree : prefix_operand_needs_parens features.binding_powers op (.BinaryOp l child r) = false) :
    features.prefix_binding_power op ≤ (reader features).left ( infix_of child) := by
  have hle := prefix_le_of_free hfree
  rw [left_infix_of]
  cases hequality : is_equality child with
  | false => exact hle
  | true =>
    have hranked := hgrouping.equality (general_equality hchild hequality)
    rw [binding_power_equality hequality] at hle
    exact hranked.prefix_gap op hle

end squonk.render
