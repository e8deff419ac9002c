import Squonk.Parser.Expr.Chain.Nonassoc

/-!
# Behind parentheses

An operator is read behind a parenthesized expression as it is behind any operand, so a chain
is accepted once its inner operator is in parentheses.
-/

open squonk.ast squonk.tokenizer squonk.dialect squonk.precedence climbing

namespace squonk.parser.expr.chain

variable {G : Grammar} {features : FeatureSet}

/-- An expression with an operator on top is none that parameters of a lambda have. -/
theorem lambda_params_of_top {l : Written} {k : Binary ⊕ Suffix} (htop : l.top = some k) :
    lambda_params (node features l) = false := by
  have hbinary : ∀ (lhs : Node) (o : Binary), lambda_params (o.node features lhs) = false := by
    intro lhs o
    cases o with
    | known o =>
      cases o with
      | symbol op means =>
        simp only [Binary.node, infix_node]
        split <;> rfl
      | word keyword means =>
        simp only [Binary.node, infix_node]
        split <;> rfl
      | _ => rfl
    | _ => rfl
  cases l with
  | inf l o r => exact hbinary _ _
  | mix l o m r => exact hbinary _ _
  | post l q =>
    cases q with
    | known q => cases q <;> rfl
    | _ => rfl
  | atom n => cases htop
  | group c => cases htop
  | pre p c => cases htop

theorem reject_primary (bp : BindingPower) :
    reject_nonassoc_chain features (.atom .Primary) bp = false := by
  simp [reject_nonassoc_chain, node, lhs_chains_nonassoc]

theorem reject_group (l : Written) (bp : BindingPower) :
    reject_nonassoc_chain features (.group l) bp = false := by
  simp [reject_nonassoc_chain, Cst.isGroup]

section Turns

variable {climb : Climb} {depth min : Nat} {mode : Mode} {ts rest : List Token}

/-- The same tail is folded onto either operand. -/
theorem fold_attach {left : Nat} {lhs lhs' c : Written} {read read' : Option (Tail × List Token)}
    (hread : ∀ {t}, read = some (t, rest) → read' = some (t, rest))
    (h : Turn.fold left min lhs read = some (.continue c rest)) :
    ∃ t : Tail, c = t.attach lhs ∧
      Turn.fold left min lhs' read' = some (.continue (t.attach lhs') rest) := by
  obtain ⟨t, htail, rfl⟩ := fold_continue h
  refine ⟨t, rfl, ?_⟩
  unfold Turn.fold at h ⊢
  split at h
  · cases h
  · rename_i hleft
    rw [if_neg hleft, hread htail]
    rfl

theorem fold_break {left : Nat} {lhs lhs' : Written} {read read' : Option (Tail × List Token)}
    (h : Turn.fold left min lhs read = some .break) :
    Turn.fold left min lhs' read' = some .break := by
  unfold Turn.fold at h ⊢
  split at h
  · rename_i hleft
    rw [if_pos hleft]
  · obtain ⟨read, -, heq⟩ := Option.map_eq_some_iff.mp h
    cases heq

theorem parse_predicate_group {l : Written} {t : Tail}
    (h : parse_predicate G features climb depth mode (.atom .Primary) ts = some (t, rest)) :
    parse_predicate G features climb depth mode (.group l) ts = some (t, rest) := by
  unfold parse_predicate at h ⊢
  split at h
  · simp [node, is_two_element_row] at h
  · rename_i hoverlaps
    rw [if_neg hoverlaps]
    exact h

theorem parse_postfix_group {l : Written} {op : PostfixOp} {t : Tail}
    (h : parse_postfix G features climb depth mode (.atom .Primary) op ts = some (t, rest)) :
    parse_postfix G features climb depth mode (.group l) op ts = some (t, rest) := by
  unfold parse_postfix at h ⊢
  have hcase : (op == .Subscript && !(Cst.group l : Written).isGroup &&
      node features (.group l) == .Case) = false := by simp [Cst.isGroup]
  rw [hcase]
  simpa [node] using h

theorem fold_infix_group {l : Written} {k : Binary ⊕ Suffix} (htop : l.top = some k) {o : Infix}
    {op : BinaryOperator} :
    fold_infix G features climb depth mode (.group l) o op ts =
      fold_infix G features climb depth mode (.atom .Primary) o op ts := by
  have hgroup : lambda_params (node features (.group l)) = false := by
    rw [node]
    exact lambda_params_of_top htop
  have hprimary : lambda_params (node features (.atom .Primary)) = false := rfl
  unfold fold_infix
  rw [hgroup, hprimary]

theorem infix_turn_group {l c : Written} {k : Binary ⊕ Suffix} (htop : l.top = some k)
    (h : infix_turn G features climb depth mode min (.atom .Primary) ts =
      some (.continue c rest)) :
    ∃ t : Tail, c = t.attach (.atom .Primary) ∧
      infix_turn G features climb depth mode min (.group l) ts =
        some (.continue (t.attach (.group l)) rest) := by
  unfold infix_turn at h ⊢
  dsimp only at h ⊢
  simp only [reject_primary, reject_group, Bool.false_eq_true, if_false, fold_infix_group htop]
    at h ⊢
  split at h
  · rename_i hpeek
    rw [if_pos hpeek]
    exact fold_attach id h
  rename_i hpeek
  rw [if_neg hpeek]
  split at h
  · exact fold_attach id h
  split at h
  · split at h
    · cases h
    · rename_i hrestrict
      simp only [hrestrict]
      exact fold_attach id h
  split at h
  · exact fold_attach id h
  · cases h

/-- What is folded onto an operand is folded onto a parenthesized expression. -/
theorem climb_turn_group {l c : Written} {k : Binary ⊕ Suffix} (htop : l.top = some k)
    (h : climb_turn G features climb depth mode min (.atom .Primary) ts =
      some (.continue c rest)) :
    ∃ t : Tail, c = t.attach (.atom .Primary) ∧
      climb_turn G features climb depth mode min (.group l) ts =
        some (.continue (t.attach (.group l)) rest) := by
  unfold climb_turn at h ⊢
  dsimp only at h ⊢
  simp only [reject_primary, reject_group, Bool.false_eq_true, if_false] at h ⊢
  split at h
  · rename_i hin
    rw [if_pos hin]
    split at h
    · cases h
    · rename_i hrestrict
      rw [if_neg hrestrict]
      exact fold_attach id h
  rename_i hin
  rw [if_neg hin]
  split at h
  · rename_i hpredicate
    rw [if_pos hpredicate]
    split at h
    · cases h
    · rename_i hrestrict
      rw [if_neg hrestrict]
      exact fold_attach parse_predicate_group h
  rename_i hpredicate
  rw [if_neg hpredicate]
  split at h
  · split at h
    · cases h
    · rename_i hrestrict
      simp only [hrestrict]
      exact fold_attach parse_postfix_group h
  split at h
  · rename_i op hsymbol
    cases h
    exact ⟨.post (.known (.symbol op)), rfl, rfl⟩
  · exact infix_turn_group htop h

/-- Where the climb ends does not depend on what it has read. -/
theorem climb_turn_break {lhs lhs' : Written}
    (h : climb_turn G features climb depth mode min lhs ts = some .break) :
    climb_turn G features climb depth mode min lhs' ts = some .break := by
  unfold climb_turn infix_turn at h ⊢
  dsimp only at h ⊢
  split at h
  · rename_i hin
    rw [if_pos hin]
    split at h
    · rename_i hrestrict
      rw [if_pos hrestrict]
    · rename_i hrestrict
      rw [if_neg hrestrict]
      exact fold_break h
  rename_i hin
  rw [if_neg hin]
  split at h
  · rename_i hpredicate
    rw [if_pos hpredicate]
    split at h
    · rename_i hrestrict
      rw [if_pos hrestrict]
    · rename_i hrestrict
      rw [if_neg hrestrict]
      exact fold_break h
  rename_i hpredicate
  rw [if_neg hpredicate]
  split at h
  · split at h
    · rename_i hrestrict
      simp only [hrestrict, if_true]
    · rename_i hrestrict
      simp only [hrestrict]
      exact fold_break h
  split at h
  · cases h
  split at h
  · rename_i hpeek
    rw [if_pos hpeek]
    exact fold_break h
  rename_i hpeek
  rw [if_neg hpeek]
  split at h
  · exact fold_break h
  split at h
  · split at h
    · rename_i hrestrict
      simp only [hrestrict, if_true]
    · rename_i hrestrict
      simp only [hrestrict]
      exact fold_break h
  split at h
  · exact fold_break h
  · rfl

end Turns

/-! ## Whole expressions -/

theorem climb_turn_nil (climb : Climb) (depth min : Nat) (mode : Mode) (lhs : Written) :
    climb_turn G features climb depth mode min lhs [] = some .break := by
  simp [climb_turn, infix_turn, peek_unparenthesized_in_list, peek_starts_predicate,
    peek_overlaps, peek_starts_range_predicate, range_predicate_at, similar_to_at,
    peek_postfix_operator, peek_operator_construct, peek_bare_infix_operator,
    peek_infix_operator, peek_postfix_symbolic_operator, peek_is_keyword, peek_nth_is_keyword]

/-- An operator that is read behind an operand, and ends the climb there, is read behind an
    operator expression in parentheses. -/
theorem parse_expr_bp_group {depth min : Nat} {mode : Mode} {inner ts rest : List Token}
    {l c : Written} {k : Binary ⊕ Suffix} (htop : l.top = some k)
    (hinner : parse_expr_bp G features depth .full 0 inner = some (l, .rparen :: ts))
    (hopen : G.primary depth mode (.lparen :: inner) = none)
    (hturn : climb_turn G features (parse_expr_bp G features depth) depth mode min
      (.atom .Primary) ts = some (.continue c rest))
    (hstop : climb_turn G features (parse_expr_bp G features depth) depth mode min c rest =
      some .break) :
    ∃ t : Tail, c = t.attach (.atom .Primary) ∧
      parse_expr_bp G features (depth + 1) mode min (.lparen :: inner) =
        some (t.attach (.group l), rest) := by
  obtain ⟨t, hc, hgroup⟩ := climb_turn_group htop hturn
  refine ⟨t, hc, ?_⟩
  have hprefix : parse_prefix G features (parse_expr_bp G features depth) depth mode
      (.lparen :: inner) = some (.group l, ts) := by
    simp [ parse_prefix, hopen, hinner]
  rw [parse_expr_bp, hprefix]
  dsimp only
  cases ts with
  | nil =>
    rw [climb_turn_nil] at hturn
    cases hturn
  | cons t' ts =>
    rw [List.length_cons, climb_loop, hgroup]
    dsimp only
    cases ts.length with
    | zero => rfl
    | succ turns => rw [climb_loop, climb_turn_break hstop]

/-- In what is accepted an operator stands bare behind one of its own non-associative rank
    exactly where the chain is missed, and behind the same operator in parentheses it is
    accepted. -/
theorem nonassoc_chains_iff (G : Grammar) (features : FeatureSet) :
    (∀ {depth mode min ts c rest},
      parse_expr_bp G features depth mode min ts = some (c, rest) →
        (c.Folds (fun l k => ¬ BareChain features l k) ↔
          c.Folds fun l k => ¬ MissedChain features l k)) ∧
      ∀ {depth mode min inner ts rest l c k}, l.top = some k →
        parse_expr_bp G features depth .full 0 inner = some (l, .rparen :: ts) →
        G.primary depth mode (.lparen :: inner) = none →
        climb_turn G features (parse_expr_bp G features depth) depth mode min
          (.atom .Primary) ts = some (.continue c rest) →
        climb_turn G features (parse_expr_bp G features depth) depth mode min c rest =
          some .break →
        ∃ t : Tail, c = t.attach (.atom .Primary) ∧
          parse_expr_bp G features (depth + 1) mode min (.lparen :: inner) =
            some (t.attach (.group l), rest) :=
  ⟨bare_chain_iff, parse_expr_bp_group⟩

/-- The grammar in which every operand is a name or a literal. -/
def names (features : FeatureSet) : Grammar where
  primary _ _ ts := (parse_word_or_literal features ts).map fun (operand, rest) =>
    (match operand with
      | .Column _ => .Column 1
      | _ => .Primary, rest)
  membership _ _ := none
  quantified _ _ := none
  access _ _ _ := none
  peek_infix_operator_hook _ _ := none

/-- `(a IS JSON) IS JSON` -/
def grouped_tests : List Token :=
  [.lparen, .word ['a'], .keyword .Is, .keyword .Json, .rparen, .keyword .Is, .keyword .Json]

/-- `a IS JSON` -/
def json_test : Written := .post (.atom (.Column 1)) (.is_json false .Any false)

theorem nonassoc_chains_grouped_tests :
    (Cst.post (.group json_test) (.is_json false .Any false) : Written).Folds
      fun l k => ¬ BareChain FeatureSet.POSTGRES l k := by
  have hread : parse_expr_bp (names FeatureSet.POSTGRES) FeatureSet.POSTGRES 2 .full 0
      grouped_tests = some (.post (.group json_test) (.is_json false .Any false), []) := by
    decide +kernel
  refine ((nonassoc_chains_iff (names FeatureSet.POSTGRES) FeatureSet.POSTGRES).1 hread).mpr ?_
  refine ⟨fun h => ?_, fun h => ?_, trivial⟩
  · cases h.1.2
  · cases h.1.2

theorem nonassoc_chain_accepted :
    ¬ ∀ (G : Grammar) (dialect : BuiltinDialect) depth mode min ts c rest,
      parse_expr_bp G dialect.features depth mode min ts = some (c, rest) →
        c.Folds fun l k => ¬ BareChain dialect.features l k := by
  intro hclaim
  have hread : parse_expr_bp (names FeatureSet.POSTGRES) BuiltinDialect.Postgres.features 1 .full 0
      [.word ['a'], .keyword .Is, .keyword .Json, .keyword .Is, .keyword .Json] =
        some (.post json_test (.is_json false .Any false), []) := by decide +kernel
  have hfree := hclaim _ _ _ _ _ _ _ _ hread
  exact hfree.1 ⟨⟨rfl, Or.inr (Or.inl rfl)⟩, rfl⟩

end squonk.parser.expr.chain
