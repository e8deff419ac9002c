import Squonk.Climbing.Folds
import Squonk.Parser.Expr.Chain.Climb
import Squonk.Parser.Expr.Refines

/-!
# Chains of operators that do not associate

Which operators the climb refuses behind an operand of their own rank, and which it misses.
-/

open squonk.ast squonk.tokenizer squonk.dialect squonk.precedence climbing

namespace squonk.parser.expr.chain

variable {G : Grammar} {features : FeatureSet}

/-! ## Ranks -/

/-- The rank an operator is climbed at. -/
def rank (features : FeatureSet) : Binary ⊕ Suffix → BindingPower
  | .inl (.known o) => expr.rank features (.inl o)
  | .inl (.like_quantified _ _ _) => features.binding_powers.range_predicate
  | .inl (.in_expr _) => UNPARENTHESIZED_IN_LIST
  | .inl .overlaps => OVERLAPS_PREDICATE
  | .inl (.custom rank) => rank
  | .inr (.known q) => expr.rank features (.inr q)
  | .inr (.is_json _ _ _) | .inr (.is_document _) | .inr (.is_normalized _ _) =>
    features.binding_powers.predicate
  | .inr (.in_list _) | .inr (.in_subquery _) => features.binding_powers.range_predicate
  | .inr (.quantified_list op _) | .inr (.quantified_subquery op _) => features.binding_power op
  | .inr (.access op) => op.binding_power features.binding_powers

/-- Whether the climb looks for a chain in front of an operator. -/
def checks_chain : Binary ⊕ Suffix → Bool
  | .inl (.known o) => expr.checks_chain (.inl o)
  | .inl (.in_expr _) => false
  | .inr (.known q) => expr.checks_chain (.inr q)
  | .inr (.access _) => false
  | _ => true

/-- Whether the climb refuses the operator `k` behind `l`. -/
def blocked (features : FeatureSet) (l : Written) (k : Binary ⊕ Suffix) : Bool :=
  checks_chain k && reject_nonassoc_chain features l (rank features k)

/-- The expression is one in which no operator is refused. -/
def Unblocked (features : FeatureSet) (c : Written) : Prop :=
  c.Folds fun l k => blocked features l k = false

theorem unblocked_group {c : Written} (h : Unblocked features c) : Unblocked features (.group c) :=
  h

theorem unblocked_pre {p : Prefix} {c : Written} (h : Unblocked features c) :
    Unblocked features (.pre p c) :=
  h

theorem unblocked_post {l : Written} {q : Suffix} (hfree : blocked features l (.inr q) = false)
    (hl : Unblocked features l) : Unblocked features (.post l q) :=
  ⟨hfree, hl⟩

/-- A rank of the comparisons, the `IS` predicates or the range predicates that does not
    associate. -/
def NonassocRank (features : FeatureSet) (bp : BindingPower) : Prop :=
  bp.assoc = .NonAssoc ∧
    (bp = features.binding_powers.comparison ∨ bp = features.binding_powers.predicate ∨
      bp = features.binding_powers.range_predicate)

/-- `k` stands behind an operator of its own rank, without parentheses between the two. -/
def BareChain (features : FeatureSet) (l : Written) (k : Binary ⊕ Suffix) : Prop :=
  NonassocRank features (rank features k) ∧
    l.top.map (rank features) = some (rank features k)

/-- The binary operators whose node does not tell their rank: the negated keyword operators, an
    `IS` that is an equality where it is not ranked as one, and those of no comparison. -/
def Binary.unlisted (features : FeatureSet) (lhs : Node) : Binary → Bool
  | .known (.negated_word _ _) => true
  | .known (.equality _) =>
    !(features.binding_powers.comparison.assoc == .NonAssoc &&
      features.binding_powers.comparison.left == features.binding_powers.predicate.left)
  | .known (.bare _) | .known (.construct _ _) | .known .at_time_zone | .in_expr _ => true
  | .known (.symbol _ means) | .known (.word _ means) =>
    means == .JsonGet && features.operator_syntax.lambda_expressions && lambda_params lhs
  | .known (.distinct _) | .known (.between _ _) | .known (.like _ _) => false
  | .like_quantified _ _ _ | .overlaps | .custom _ => false

/-- The operators behind their operand whose node does not tell their rank: `IS JSON`,
    `IS DOCUMENT`, and those of no comparison. -/
def Suffix.unlisted : Suffix → Bool
  | .is_json _ _ _ | .is_document _ => true
  | .known (.collate _) | .known (.symbol _) | .access _ => true
  | _ => false

def unlisted (features : FeatureSet) : Written → Bool
  | .inf l o _ | .mix l o _ _ => o.unlisted features (node features l)
  | .post _ q => q.unlisted
  | _ => false

/-- A chain whose inner operator is not listed, or whose outer one is not checked. -/
def MissedChain (features : FeatureSet) (l : Written) (k : Binary ⊕ Suffix) : Prop :=
  BareChain features l k ∧ (unlisted features l = true ∨ checks_chain k = false)

/-! ## What a node tells -/

theorem Binary.chains_of_listed {lhs : Node} {o : Binary}
    (hlisted : o.unlisted features lhs = false)
    (hassoc : (rank features (.inl o)).assoc = .NonAssoc) :
    lhs_chains_nonassoc features (o.node features lhs) (rank features (.inl o)).left = true := by
  cases o with
  | known o =>
    cases o with
    | symbol op means =>
      simp only [Binary.unlisted] at hlisted
      simp only [Binary.node, infix_node, hlisted, Bool.false_eq_true, if_false]
      simpa [lhs_chains_nonassoc, rank, expr.rank] using hassoc
    | word keyword means =>
      simp only [Binary.unlisted] at hlisted
      simp only [Binary.node, infix_node, hlisted, Bool.false_eq_true, if_false]
      simpa [lhs_chains_nonassoc, rank, expr.rank] using hassoc
    | distinct negated =>
      cases negated
      · simpa [Binary.node, distinct_operator, lhs_chains_nonassoc, rank, expr.rank,
          FeatureSet.binding_power, BindingPowerTable.binary] using hassoc
      · simpa [Binary.node, distinct_operator, lhs_chains_nonassoc, rank, expr.rank,
          FeatureSet.binding_power, BindingPowerTable.binary] using hassoc
    | equality negated =>
      simp only [Binary.unlisted, Bool.not_eq_false'] at hlisted
      cases negated
      · simpa [Binary.node, equality_operator, lhs_chains_nonassoc, rank, expr.rank,
          FeatureSet.binding_power, BindingPowerTable.binary] using hlisted
      · simpa [Binary.node, equality_operator, lhs_chains_nonassoc, rank, expr.rank,
          FeatureSet.binding_power, BindingPowerTable.binary] using hlisted
    | between negated modifier =>
      simpa [Binary.node, lhs_chains_nonassoc, rank, expr.rank] using hassoc
    | like negated spelling =>
      simpa [Binary.node, lhs_chains_nonassoc, rank, expr.rank] using hassoc
    | bare => cases hlisted
    | construct => cases hlisted
    | negated_word => cases hlisted
    | at_time_zone => cases hlisted
  | like_quantified negated spelling quantifier =>
    simpa [Binary.node, lhs_chains_nonassoc, rank] using hassoc
  | in_expr negated => cases hlisted
  | overlaps => rfl
  | custom bp => simpa [Binary.node, lhs_chains_nonassoc, rank] using hassoc

theorem Suffix.chains_of_listed {q : Suffix} (hlisted : q.unlisted = false)
    (hassoc : (rank features (.inr q)).assoc = .NonAssoc) :
    lhs_chains_nonassoc features q.node (rank features (.inr q)).left = true := by
  cases q with
  | known q =>
    cases q with
    | collate collation => cases hlisted
    | symbol op => cases hlisted
    | _ => simpa [Suffix.node, lhs_chains_nonassoc, rank, expr.rank] using hassoc
  | is_json => cases hlisted
  | is_document => cases hlisted
  | access => cases hlisted
  | _ => simpa [Suffix.node, lhs_chains_nonassoc, rank] using hassoc

/-- The node of a listed operator tells the operator's rank. -/
theorem lhs_chains_of_listed {l : Written} {k : Binary ⊕ Suffix} (htop : l.top = some k)
    (hlisted : unlisted features l = false) (hassoc : (rank features k).assoc = .NonAssoc) :
    lhs_chains_nonassoc features (node features l) (rank features k).left = true := by
  cases l with
  | inf l o r =>
    cases htop
    exact Binary.chains_of_listed hlisted hassoc
  | mix l o m r =>
    cases htop
    exact Binary.chains_of_listed hlisted hassoc
  | post l q =>
    cases htop
    exact Suffix.chains_of_listed hlisted hassoc
  | atom n => cases htop
  | group c => cases htop
  | pre p c => cases htop

/-- A bare chain is refused, if it is not one that is missed. -/
theorem blocked_of_bare {l : Written} {k : Binary ⊕ Suffix} (hbare : BareChain features l k)
    (hfound : ¬ MissedChain features l k) : blocked features l k = true := by
  obtain ⟨hrank, hsame⟩ := hbare
  have hnot : unlisted features l = false ∧ checks_chain k = true := by
    constructor
    · by_contra hlisted
      exact hfound ⟨⟨hrank, hsame⟩, Or.inl (by simpa using hlisted)⟩
    · by_contra hchecks
      exact hfound ⟨⟨hrank, hsame⟩, Or.inr (by simpa using hchecks)⟩
  obtain ⟨k', htop, heq⟩ := Option.map_eq_some_iff.mp hsame
  have hassoc : (rank features k').assoc = .NonAssoc := by
    rw [heq]
    exact hrank.1
  have hchains := lhs_chains_of_listed htop hnot.1 hassoc
  rw [heq] at hchains
  simp [blocked, reject_nonassoc_chain, hnot.2, hrank.1, hchains, Cst.isGroup_of_top htop]

/-! ## What a turn folds -/

/-- The right operands of a tail are free of refused operators. -/
def Tail.Unblocked (features : FeatureSet) : Tail → Prop
  | .inf _ r => chain.Unblocked features r
  | .mix _ m r => chain.Unblocked features m ∧ chain.Unblocked features r
  | .post _ => True

theorem attach_unblocked {t : Tail} {lhs : Written} (hfree : blocked features lhs t.operator = false)
    (hlhs : Unblocked features lhs) (ht : t.Unblocked features) :
    Unblocked features (t.attach lhs) := by
  cases t with
  | inf o r => exact ⟨hfree, hlhs, ht⟩
  | mix o m r => exact ⟨hfree, hlhs, ht⟩
  | post q => exact ⟨hfree, hlhs⟩

/-- Every expression a climb reads is free of refused operators. -/
def Clean (features : FeatureSet) (climb : Climb) : Prop :=
  ∀ {mode min ts c rest}, climb mode min ts = some (c, rest) → Unblocked features c

section Reads

variable {climb : Climb} {depth : Nat} {mode : Mode} {ts rest : List Token}

theorem parse_prefix_unblocked (hclean : Clean features climb) {c : Written}
    (h : parse_prefix G features climb depth mode ts = some (c, rest)) : Unblocked features c := by
  unfold parse_prefix at h
  split at h
  · obtain ⟨rfl, rfl⟩ := Prod.mk.inj (Option.some.inj h)
    trivial
  · split at h
    · cases h
    · split at h
      · split at h
        · rename_i hinner
          obtain ⟨rfl, rfl⟩ := Prod.mk.inj (Option.some.inj h)
          exact unblocked_group (hclean hinner)
        · cases h
      · split at h
        · cases h
        · split at h
          · obtain ⟨⟨d, rest'⟩, hread, heq⟩ := Option.map_eq_some_iff.mp h
            obtain ⟨rfl, rfl⟩ := Prod.mk.inj heq
            exact unblocked_pre (hclean hread)
          · cases h

theorem parse_subscripts_unblocked {turns : Nat} {c d : Written} (hc : Unblocked features c)
    (h : parse_subscripts G features depth turns c ts = some (d, rest)) :
    Unblocked features d := by
  induction turns generalizing c ts with
  | zero =>
    obtain ⟨rfl, rfl⟩ := Prod.mk.inj (Option.some.inj h)
    exact hc
  | succ turns ih =>
    rw [parse_subscripts] at h
    split at h
    · split at h
      · exact ih (unblocked_post rfl hc) h
      · cases h
    · obtain ⟨rfl, rfl⟩ := Prod.mk.inj (Option.some.inj h)
      exact hc

theorem parse_in_expr_rhs_unblocked (hclean : Clean features climb) {c : Written}
    (h : parse_in_expr_rhs G features climb depth mode ts = some (c, rest)) :
    Unblocked features c := by
  unfold parse_in_expr_rhs at h
  split at h
  · rename_i hread
    exact parse_subscripts_unblocked (parse_prefix_unblocked hclean hread) h
  · cases h

/-- An operator with one right operand. -/
theorem inf_spec {read : Option (Written × List Token)} {o : Binary} {t : Tail}
    (hread : ∀ {r ts'}, read = some (r, ts') → Unblocked features r)
    (h : read.map (fun (r, ts') => (Tail.inf o r, ts')) = some (t, rest)) :
    t.operator = .inl o ∧ t.Unblocked features := by
  obtain ⟨⟨r, rest'⟩, hr, heq⟩ := Option.map_eq_some_iff.mp h
  obtain ⟨rfl, rfl⟩ := Prod.mk.inj heq
  exact ⟨rfl, hread hr⟩

theorem parse_binary_spec (hclean : Clean features climb) {o : Binary} {t : Tail}
    (h : parse_binary G features climb depth mode o ts = some (t, rest)) :
    t.operator = .inl o ∧ t.Unblocked features := by
  unfold parse_binary at h
  dsimp only at h
  split at h
  · -- BETWEEN
    split at h
    · rename_i hlow
      obtain ⟨⟨high, rest'⟩, hhigh, heq⟩ := Option.map_eq_some_iff.mp h
      obtain ⟨rfl, rfl⟩ := Prod.mk.inj heq
      exact ⟨rfl, hclean hlow, hclean hhigh⟩
    · cases h
  · -- LIKE
    split at h
    · rename_i hpattern
      split at h
      · obtain ⟨⟨escape, rest'⟩, hescape, heq⟩ := Option.map_eq_some_iff.mp h
        obtain ⟨rfl, rfl⟩ := Prod.mk.inj heq
        exact ⟨rfl, hclean hpattern, hclean hescape⟩
      · obtain ⟨rfl, rfl⟩ := Prod.mk.inj (Option.some.inj h)
        exact ⟨rfl, hclean hpattern⟩
    · cases h
  · exact inf_spec hclean h
  · -- a quantified LIKE
    split at h
    · split at h
      · rename_i hpattern
        obtain ⟨rfl, rfl⟩ := Prod.mk.inj (Option.some.inj h)
        exact ⟨rfl, unblocked_group (hclean hpattern)⟩
      · cases h
    · cases h
  · exact inf_spec (parse_in_expr_rhs_unblocked hclean) h
  · -- OVERLAPS
    split at h
    · rename_i hread
      split at h
      · cases h
      · obtain ⟨rfl, rfl⟩ := Prod.mk.inj (Option.some.inj h)
        exact ⟨rfl, parse_prefix_unblocked hclean hread⟩
    · cases h
  · exact inf_spec hclean h

/-! ### Predicates -/

theorem rank_known (k : Infix ⊕ Postfix) : rank features (known k) = expr.rank features k := by
  cases k <;> rfl

theorem checks_chain_known (k : Infix ⊕ Postfix) : checks_chain (known k) = expr.checks_chain k := by
  cases k <;> rfl

theorem predicate_rank_is (h : peek_is_keyword .Is ts = true) :
    predicate_binding_power features ts = features.binding_powers.predicate := by
  rw [peek_is_keyword_iff.mp h]
  simp [predicate_binding_power, peek_overlaps, peek_starts_range_predicate, range_predicate_at,
    similar_to_at, peek_is_keyword, peek_nth_is_keyword]

theorem parse_is_head_rank {negated : Bool} {k : Binary ⊕ Suffix}
    (h : parse_is_head features negated ts = some (k, rest)) :
    rank features k = features.binding_powers.predicate ∧ checks_chain k = true := by
  unfold parse_is_head at h
  split at h
  · obtain ⟨rfl, rfl⟩ := Prod.mk.inj (Option.some.inj h)
    exact ⟨rfl, rfl⟩
  split at h
  · obtain ⟨rfl, rfl⟩ := Prod.mk.inj (Option.some.inj h)
    exact ⟨rfl, rfl⟩
  split at h
  · split at h
    · obtain ⟨rfl, rfl⟩ := Prod.mk.inj (Option.some.inj h)
      exact ⟨rfl, rfl⟩
    · obtain ⟨rfl, rfl⟩ := Prod.mk.inj (Option.some.inj h)
      exact ⟨rfl, rfl⟩
  · obtain ⟨⟨k', rest'⟩, hplain, heq⟩ := Option.map_eq_some_iff.mp h
    obtain ⟨rfl, rfl⟩ := Prod.mk.inj heq
    obtain ⟨hrank, hnames⟩ := is_predicate_rank hplain
    exact ⟨by rw [rank_known, hrank],
      by rw [checks_chain_known, checks_chain_of_names_predicate hnames]⟩

/-- A range predicate behind an optional `NOT`. -/
theorem predicate_rank_range (hoverlaps : peek_overlaps features ts = false)
    (h : range_predicate_at features 0 (eat_keyword .Not ts).2 = true) :
    predicate_binding_power features ts = features.binding_powers.range_predicate := by
  have hrange : peek_starts_range_predicate features ts = true := by
    unfold eat_keyword at h
    unfold peek_starts_range_predicate
    split at h
    · rename_i hnot
      rw [range_predicate_at_succ, hnot, h]
      simp
    · rw [h]
      simp
  simp [predicate_binding_power, hoverlaps, hrange]

theorem parse_quantified_like_head_spec {negated : Bool} {o : Binary}
    (h : parse_quantified_like_head features negated ts = some (o, rest)) :
    range_predicate_at features 0 ts = true ∧
      rank features (.inl o) = features.binding_powers.range_predicate ∧
        checks_chain (.inl o) = true := by
  unfold parse_quantified_like_head at h
  dsimp only at h
  split at h
  · cases h
  split at h
  · rename_i hlike
    obtain ⟨⟨quantifier, rest'⟩, -, heq⟩ := Option.map_eq_some_iff.mp h
    obtain ⟨rfl, rfl⟩ := Prod.mk.inj heq
    rw [Bool.and_eq_true, peek_is_keyword] at hlike
    exact ⟨by simp [range_predicate_at, hlike.1, hlike.2], rfl, rfl⟩
  split at h
  · rename_i hilike
    obtain ⟨⟨quantifier, rest'⟩, -, heq⟩ := Option.map_eq_some_iff.mp h
    obtain ⟨rfl, rfl⟩ := Prod.mk.inj heq
    rw [Bool.and_eq_true, peek_is_keyword] at hilike
    exact ⟨by simp [range_predicate_at, hilike.1, hilike.2], rfl, rfl⟩
  · cases h

/-- The rank a predicate is climbed at is that of the operator it turns out to be. -/
theorem parse_predicate_head_rank {k : Binary ⊕ Suffix}
    (hoverlaps : peek_overlaps features ts = false)
    (h : parse_predicate_head features ts = some (k, rest)) :
    rank features k = predicate_binding_power features ts ∧ checks_chain k = true := by
  unfold parse_predicate_head at h
  split at h
  · rename_i his
    obtain ⟨hrank, hchecks⟩ := parse_is_head_rank h
    exact ⟨by rw [hrank, predicate_rank_is his], hchecks⟩
  · dsimp only at h
    split at h
    · rename_i hlike
      obtain ⟨rfl, rfl⟩ := Prod.mk.inj (Option.some.inj h)
      obtain ⟨hrange, hrank, hchecks⟩ := parse_quantified_like_head_spec hlike
      exact ⟨by rw [hrank, predicate_rank_range hoverlaps hrange], hchecks⟩
    · obtain ⟨⟨k', rest'⟩, hplain, heq⟩ := Option.map_eq_some_iff.mp h
      obtain ⟨rfl, rfl⟩ := Prod.mk.inj heq
      obtain ⟨hrank, hnames⟩ := predicate_rank hplain
      exact ⟨by rw [rank_known, hrank],
        by rw [checks_chain_known, checks_chain_of_names_predicate hnames]⟩

theorem parse_predicate_spec (hclean : Clean features climb) {lhs : Written} {t : Tail}
    (h : parse_predicate G features climb depth mode lhs ts = some (t, rest)) :
    rank features t.operator = predicate_binding_power features ts ∧
      checks_chain t.operator = true ∧ t.Unblocked features := by
  unfold parse_predicate at h
  split at h
  · rename_i hoverlaps
    split at h
    · cases h
    · obtain ⟨hop, hright⟩ := parse_binary_spec hclean h
      rw [hop]
      exact ⟨by simp [predicate_binding_power, hoverlaps, rank], rfl, hright⟩
  rename_i hoverlaps
  rw [Bool.not_eq_true] at hoverlaps
  split at h
  · rename_i hin
    have hrange : range_predicate_at features 0 (eat_keyword .Not ts).2 = true := by
      rw [peek_is_keyword] at hin
      simp [range_predicate_at, hin]
    rw [predicate_rank_range hoverlaps hrange]
    obtain ⟨⟨subquery, rest'⟩, -, heq⟩ := Option.map_eq_some_iff.mp h
    obtain ⟨rfl, rfl⟩ := Prod.mk.inj heq
    cases subquery <;> exact ⟨rfl, rfl, trivial⟩
  · split at h
    · rename_i o rest' hhead
      obtain ⟨hrank, hchecks⟩ := parse_predicate_head_rank hoverlaps hhead
      obtain ⟨hop, hright⟩ := parse_binary_spec hclean h
      rw [hop]
      exact ⟨hrank, hchecks, hright⟩
    · rename_i q rest' hhead
      obtain ⟨hrank, hchecks⟩ := parse_predicate_head_rank hoverlaps hhead
      obtain ⟨rfl, rfl⟩ := Prod.mk.inj (Option.some.inj h)
      exact ⟨hrank, hchecks, trivial⟩
    · cases h

/-! ### Other operators -/

theorem parse_postfix_spec (hclean : Clean features climb) {lhs : Written} {op : PostfixOp}
    {t : Tail} (h : parse_postfix G features climb depth mode lhs op ts = some (t, rest)) :
    checks_chain t.operator = false ∧ t.Unblocked features := by
  unfold parse_postfix at h
  split at h
  · cases h
  split at h
  · obtain ⟨hop, hright⟩ := parse_binary_spec hclean h
    rw [hop]
    exact ⟨rfl, hright⟩
  · obtain ⟨rest', -, heq⟩ := Option.map_eq_some_iff.mp h
    obtain ⟨rfl, rfl⟩ := Prod.mk.inj heq
    exact ⟨rfl, trivial⟩

theorem parse_quantified_operator_tail_spec {op : BinaryOperator} {quantifier : Quantifier}
    {t : Tail} (h : parse_quantified_operator_tail G features depth op quantifier ts =
      some (t, rest)) :
    rank features t.operator = features.binding_power op ∧ checks_chain t.operator = true ∧
      t.Unblocked features := by
  unfold parse_quantified_operator_tail at h
  split at h
  · obtain ⟨rfl, rfl⟩ := Prod.mk.inj (Option.some.inj h)
    exact ⟨rfl, rfl, trivial⟩
  · split at h
    · obtain ⟨rfl, rfl⟩ := Prod.mk.inj (Option.some.inj h)
      exact ⟨rfl, rfl, trivial⟩
    · cases h
  · cases h

theorem fold_infix_spec (hclean : Clean features climb) {lhs : Written} {o : Infix}
    {op : BinaryOperator} (hmeans : o.means? = some op) {t : Tail}
    (h : fold_infix G features climb depth mode lhs o op ts = some (t, rest)) :
    rank features t.operator = features.binding_power op ∧ checks_chain t.operator = true ∧
      t.Unblocked features := by
  unfold fold_infix at h
  dsimp only at h
  split at h
  · exact parse_quantified_operator_tail_spec h
  · obtain ⟨hop, hright⟩ := parse_binary_spec hclean h
    rw [hop]
    cases o with
    | symbol op' means =>
      cases hmeans
      exact ⟨rfl, rfl, hright⟩
    | word keyword means =>
      cases hmeans
      exact ⟨rfl, rfl, hright⟩
    | _ => cases hmeans

/-! ### Turns -/

theorem fold_continue {left min : Nat} {lhs c : Written} {read : Option (Tail × List Token)}
    (h : Turn.fold left min lhs read = some (.continue c rest)) :
    ∃ t, read = some (t, rest) ∧ c = t.attach lhs := by
  unfold Turn.fold at h
  split at h
  · cases h
  · obtain ⟨⟨t, rest'⟩, hread, heq⟩ := Option.map_eq_some_iff.mp h
    cases heq
    exact ⟨t, hread, rfl⟩

/-- A tail that is read only where no chain is found. -/
theorem fold_checked {left min : Nat} {lhs c : Written} {bp : BindingPower}
    {read : Option (Tail × List Token)} (hlhs : Unblocked features lhs)
    (hread : ∀ {t}, read = some (t, rest) →
      rank features t.operator = bp ∧ t.Unblocked features)
    (h : Turn.fold left min lhs
      (if reject_nonassoc_chain features lhs bp then none else read) = some (.continue c rest)) :
    Unblocked features c := by
  obtain ⟨t, htail, rfl⟩ := fold_continue h
  split at htail
  · cases htail
  · rename_i hfree
    obtain ⟨hrank, ht⟩ := hread htail
    refine attach_unblocked ?_ hlhs ht
    rw [blocked, hrank]
    simp [hfree]

/-- A tail of an operator that chains with nothing. -/
theorem fold_unchecked {left min : Nat} {lhs c : Written} {read : Option (Tail × List Token)}
    (hlhs : Unblocked features lhs)
    (hread : ∀ {t}, read = some (t, rest) →
      checks_chain t.operator = false ∧ t.Unblocked features)
    (h : Turn.fold left min lhs read = some (.continue c rest)) : Unblocked features c := by
  obtain ⟨t, htail, rfl⟩ := fold_continue h
  obtain ⟨hchecks, ht⟩ := hread htail
  exact attach_unblocked (by rw [blocked, hchecks, Bool.false_and]) hlhs ht

theorem infix_turn_unblocked (hclean : Clean features climb) {min : Nat} {lhs c : Written}
    (hlhs : Unblocked features lhs)
    (h : infix_turn G features climb depth mode min lhs ts = some (.continue c rest)) :
    Unblocked features c := by
  unfold infix_turn at h
  dsimp only at h
  split at h
  · -- OPERATOR(…)
    rename_i hpeek
    refine fold_unchecked hlhs (fun {t} hread => ?_) h
    obtain ⟨⟨o, rest'⟩, hhead, hbinary⟩ := Option.bind_eq_some_iff.mp hread
    obtain ⟨hop, hright⟩ := parse_binary_spec hclean hbinary
    obtain ⟨-, schema, op, rfl⟩ := parse_operator_construct_head_tokens hpeek hhead
    exact ⟨by rw [hop]; rfl, hright⟩
  split at h
  · refine fold_unchecked hlhs (fun {t} hread => ?_) h
    obtain ⟨hop, hright⟩ := parse_binary_spec hclean hread
    exact ⟨by rw [hop]; rfl, hright⟩
  split at h
  · rename_i o op hpeek
    obtain ⟨o', -, hmeans⟩ := Option.bind_eq_some_iff.mp hpeek
    obtain ⟨op', hop', heq⟩ := Option.map_eq_some_iff.mp hmeans
    obtain ⟨rfl, rfl⟩ := Prod.mk.inj heq
    split at h
    · cases h
    · refine fold_checked hlhs (fun {t} hread => ?_) h
      obtain ⟨hrank, -, hright⟩ := fold_infix_spec hclean hop' hread
      exact ⟨hrank, hright⟩
  split at h
  · -- the hook's operator
    refine fold_checked hlhs (fun {t} hread => ?_) h
    obtain ⟨hop, hright⟩ := parse_binary_spec hclean hread
    exact ⟨by rw [hop]; rfl, hright⟩
  · cases h

/-- A turn folds no operator that is refused. -/
theorem climb_turn_unblocked (hclean : Clean features climb) {min : Nat} {lhs c : Written}
    (hlhs : Unblocked features lhs)
    (h : climb_turn G features climb depth mode min lhs ts = some (.continue c rest)) :
    Unblocked features c := by
  unfold climb_turn at h
  dsimp only at h
  split at h
  · split at h
    · cases h
    · refine fold_unchecked hlhs (fun {t} hread => ?_) h
      unfold parse_unparenthesized_in_list at hread
      obtain ⟨hop, hright⟩ := parse_binary_spec hclean hread
      exact ⟨by rw [hop]; rfl, hright⟩
  split at h
  · split at h
    · cases h
    · refine fold_checked hlhs (fun {t} hread => ?_) h
      obtain ⟨hrank, -, hright⟩ := parse_predicate_spec hclean hread
      exact ⟨hrank, hright⟩
  split at h
  · split at h
    · cases h
    · exact fold_unchecked hlhs (parse_postfix_spec hclean) h
  split at h
  · cases h
    exact unblocked_post rfl hlhs
  · exact infix_turn_unblocked hclean hlhs h

theorem climb_loop_unblocked (hclean : Clean features climb) {min turns : Nat} {lhs c : Written}
    (hlhs : Unblocked features lhs)
    (h : climb_loop G features climb depth mode min turns lhs ts = some (c, rest)) :
    Unblocked features c := by
  induction turns generalizing lhs ts with
  | zero =>
    obtain ⟨rfl, rfl⟩ := Prod.mk.inj (Option.some.inj h)
    exact hlhs
  | succ turns ih =>
    rw [climb_loop] at h
    split at h
    · cases h
    · obtain ⟨rfl, rfl⟩ := Prod.mk.inj (Option.some.inj h)
      exact hlhs
    · rename_i hturn
      exact ih (climb_turn_unblocked hclean hlhs hturn) h

end Reads

/-- Nothing the parser accepts has an operator that is refused. -/
theorem parse_expr_bp_clean (depth : Nat) : Clean features (parse_expr_bp G features depth) := by
  induction depth with
  | zero => exact fun h => by cases h
  | succ depth ih =>
    intro mode min ts c rest h
    rw [parse_expr_bp] at h
    split at h
    · cases h
    · rename_i hprefix
      exact climb_loop_unblocked ih (parse_prefix_unblocked ih hprefix) h

/-- What is accepted has a bare chain only where it has one that is missed. -/
theorem bare_chain_iff {depth min : Nat} {mode : Mode} {ts rest : List Token} {c : Written}
    (h : parse_expr_bp G features depth mode min ts = some (c, rest)) :
    c.Folds (fun l k => ¬ BareChain features l k) ↔
      c.Folds (fun l k => ¬ MissedChain features l k) := by
  constructor
  · exact Cst.Folds.imp fun l k hbare hmissed => hbare hmissed.1
  · intro hfound
    refine Cst.Folds.imp₂ (fun l k hfree hmissed hbare => ?_) (parse_expr_bp_clean depth h) hfound
    rw [blocked_of_bare hbare hmissed] at hfree
    cases hfree

end squonk.parser.expr.chain
