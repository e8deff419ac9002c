import Squonk.Climbing.Grouping
import Squonk.Render.Canonical
import Squonk.Render.Parens

/-!
# When canonical tokens are read back

A canonical expression is read back from its tokens exactly when each of its operators stands
where the parser takes it for that operator and each operand is as tight as it is read.
-/

open squonk.ast squonk.tokenizer squonk.dialect squonk.precedence squonk.parser.expr climbing

namespace squonk.render

variable {features : FeatureSet} {ranks : List BindingPower}

/-! ## What the parser takes for a part of an operator -/

/-- Whether an operand's first token is read as a part of the equality `IS`. -/
def names_test (features : FeatureSet) (t : Token) : Bool :=
  features.predicate_syntax.is_distinct_from && t == .keyword .Distinct ||
    features.operator_syntax.truth_value_tests && (truth_value (some t)).isSome ||
    features.call_syntax.sqljson_expression_functions && t == .keyword .Json ||
    features.call_syntax.xml_expression_functions && t == .keyword .Document ||
    features.predicate_syntax.is_normalized && t == .keyword .Normalized ||
    t == .keyword .Null

def is_quantifier (t : Token) : Bool :=
  t == .keyword .Any || t == .keyword .All || t == .keyword .Some

/-- Whether the first token of a right operand is read as a part of the operator in front of it:
    a test behind `IS`, its `NOT`, or a quantifier. -/
def takes (features : FeatureSet) (o : Infix) (t : Token) : Bool :=
  match o with
  | .equality negated => !negated && t == .keyword .Not || names_test features t
  | .symbol _ means | .word _ means =>
    is_quantifiable_operator features means && features.operator_syntax.quantified_comparisons &&
      is_quantifier t
  | _ => false

/-- The lookahead finds the operator `o` in front of `ts`. -/
def Picked (features : FeatureSet) (o : Infix) (ts : List Token) : Prop :=
  peek features (o.tokens ++ ts) = some (.inf o, ts) ∨
    ∃ q, peek features (o.tokens ++ ts) = some (.either (some o) q, ts)

theorem peek_operator (op : Operator) (ts : List Token) :
    peek features (.operator op :: ts) = peek_symbolic features (.operator op :: ts) := by
  simp [peek, peek_unparenthesized_in_list, peek_starts_predicate, peek_starts_range_predicate,
    peek_overlaps, range_predicate_at, similar_to_at, peek_is_keyword, peek_nth_is_keyword,
    peek_postfix_operator]

theorem peek_quantifier_cons (t : Token) (ts : List Token) :
    peek_quantifier features (t :: ts) =
      (features.operator_syntax.quantified_comparisons && is_quantifier t) := by
  simp [peek_quantifier, peek_is_keyword, peek_nth_is_keyword, is_quantifier]

/-- The words that are infix operators. -/
theorem infix_words {keyword : Keyword} {means : BinaryOperator}
    (h : keyword_operator features keyword = some means) :
    keyword ∈ [Keyword.And, .Or, .Div, .Mod, .Xor, .Rlike, .Regexp, .Glob, .Match] := by
  unfold keyword_operator at h
  split at h
  · decide
  · decide
  · unfold KeywordOperators.binary_operator at h
    split at h
    all_goals first
      | decide
      | cases h

theorem peek_word {keyword : Keyword} {means : BinaryOperator}
    (h : keyword_operator features keyword = some means) (ts : List Token) :
    peek features (.keyword keyword :: ts) =
      some (fold_infix_of features (.word keyword means) ts) := by
  have hword := infix_words h
  simp only [List.mem_cons, List.not_mem_nil, or_false] at hword
  have hsymbolic : ∀ k : Keyword, k ≠ .Operator → keyword_operator features k = some means →
      peek_symbolic features (.keyword k :: ts) =
        some (fold_infix_of features (.word k means) ts) := by
    intro k hk hmeans
    have hconstruct : peek_operator_construct features (.keyword k :: ts) = false := by
      simp [peek_operator_construct, peek_is_keyword, peek_nth_is_keyword, hk]
    rw [peek_symbolic, hconstruct, hmeans]
    rfl
  rw [← hsymbolic keyword (by rintro rfl; simp at hword) h]
  rcases hword with rfl | rfl | rfl | rfl | rfl | rfl | rfl | rfl | rfl
  all_goals
    simp [peek, peek_unparenthesized_in_list, peek_starts_predicate, peek_starts_range_predicate,
      peek_overlaps, range_predicate_at, similar_to_at, peek_is_keyword, peek_nth_is_keyword,
      peek_postfix_operator]

theorem peek_is (ts : List Token) :
    peek features (.keyword .Is :: ts) =
      some (fold_of (predicate_binding_power features (.keyword .Is :: ts)).left
        (is_predicate features (eat_keyword .Not ts).1 (eat_keyword .Not ts).2)
        (.keyword .Is :: ts)) := by
  simp [peek, peek_unparenthesized_in_list, peek_starts_predicate, parse_predicate_head,
    peek_overlaps, peek_is_keyword, peek_nth_is_keyword]

theorem is_predicate_of_plain (hequality : features.operator_syntax.is_general_equality = true)
    {t : Token} {ts : List Token} (hplain : names_test features t = false)
    (hquiet : peek_normalized (t :: ts) = true → t = .keyword .Normalized) (negated : Bool) :
    is_predicate features negated (t :: ts) = some (.inl (.equality negated), t :: ts) := by
  simp only [names_test, Bool.or_eq_false_iff] at hplain
  obtain ⟨⟨⟨⟨⟨hdistinct, htruth⟩, hjson⟩, hdocument⟩, hnormalized⟩, hnull⟩ := hplain
  have hpeek : ∀ k : Keyword, peek_is_keyword k (t :: ts) = (t == .keyword k) := by
    intro k
    simp [peek_is_keyword, peek_nth_is_keyword]
  have hvalue : (if features.operator_syntax.truth_value_tests = true then truth_value (some t)
      else none) = none := by
    split
    · rename_i hon
      rw [hon, Bool.true_and] at htruth
      exact Option.isNone_iff_eq_none.mp (by rw [← Option.not_isSome, htruth]; rfl)
    · rfl
  have hnormal : (features.predicate_syntax.is_normalized && peek_normalized (t :: ts)) = false := by
    cases hform : peek_normalized (t :: ts) with
    | false => exact Bool.and_false _
    | true =>
      rw [hquiet hform] at hnormalized
      simpa using hnormalized
  unfold is_predicate
  rw [hpeek, hpeek, hpeek, hpeek, hdistinct, hjson, hdocument, hnormal, hnull, hequality]
  simp only [List.head?_cons, hvalue]
  rfl

theorem plain_of_is_predicate {negated negated' : Bool} {t : Token} {ts rest : List Token}
    (h : is_predicate features negated (t :: ts) = some (.inl (.equality negated'), rest)) :
    names_test features t = false := by
  have hpeek : ∀ k : Keyword, peek_is_keyword k (t :: ts) = (t == .keyword k) := by
    intro k
    simp [peek_is_keyword, peek_nth_is_keyword]
  unfold is_predicate at h
  rw [hpeek, hpeek, hpeek, hpeek] at h
  split at h
  · split at h <;> cases h
  rename_i hdistinct
  rw [List.head?_cons] at h
  split at h
  · cases h
  rename_i hvalue
  split at h
  · cases h
  rename_i hjson
  split at h
  · cases h
  rename_i hdocument
  split at h
  · cases h
  rename_i hnormalized
  split at h
  · rename_i hplain
    rw [Bool.not_eq_true] at hdistinct hjson hdocument hnormalized
    have htruth : (features.operator_syntax.truth_value_tests && (truth_value (some t)).isSome) =
        false := by
      cases hon : features.operator_syntax.truth_value_tests with
      | false => rfl
      | true =>
        rw [hon, if_pos rfl] at hvalue
        rw [hvalue]
        rfl
    have hnormal : (features.predicate_syntax.is_normalized && t == .keyword .Normalized) = false := by
      cases hon : features.predicate_syntax.is_normalized with
      | false => rfl
      | true =>
        rw [hon, peek_normalized, hpeek, Bool.true_and, Bool.or_eq_false_iff] at hnormalized
        rw [hnormalized.1]
        rfl
    have hnull : (t == .keyword .Null) = false := by
      rw [Bool.and_eq_true, Bool.not_eq_true'] at hplain
      exact hplain.2
    rw [names_test, hdistinct, htruth, hjson, hdocument, hnormal, hnull]
    rfl
  · split at h <;> cases h

theorem negated_of_is_predicate {negated negated' : Bool} {ts rest : List Token}
    (h : is_predicate features negated ts = some (.inl (.equality negated'), rest)) :
    negated' = negated := by
  unfold is_predicate at h
  repeat' split at h
  all_goals first
    | (cases h; done)
    | exact (Infix.equality.inj (Sum.inl.inj (Prod.mk.inj (Option.some.inj h)).1)).symm

/-- The operator of the dialect that is written is the one that is read, in front of a token that
    does not belong to it. -/
theorem picked_of_admits {op : BinaryOperator} (h : Admits features op) {t : Token}
    {ts : List Token} (hfree : takes features (infix_of op) t = false)
    (hquiet : peek_normalized (t :: ts) = true → t = .keyword .Normalized) :
    Picked features (infix_of op) (t :: ts) := by
  have hmeans : ∀ {o : Infix} {means : BinaryOperator}, o.means? = some means →
      (is_quantifiable_operator features means && features.operator_syntax.quantified_comparisons &&
        is_quantifier t) = false → fold_infix_of features o (t :: ts) = (.inf o, t :: ts) := by
    intro o means hmeans hplain
    unfold fold_infix_of
    rw [hmeans, peek_quantifier_cons, Option.any_some, ← Bool.and_assoc, hplain]
    rfl
  unfold Admits at h
  cases ho : infix_of op with
  | symbol token means =>
    rw [ho] at h hfree
    change peek features (.operator token :: t :: ts) = _ ∨
      ∃ q, peek features (.operator token :: t :: ts) = _
    rw [peek_operator, peek_symbolic, h.1]
    split
    · exact Or.inr ⟨_, rfl⟩
    · rw [Option.map_some, hmeans rfl hfree]
      exact Or.inl rfl
  | word keyword means =>
    rw [ho] at h hfree
    refine Or.inl ?_
    change peek features (.keyword keyword :: t :: ts) = _
    rw [peek_word h, hmeans rfl hfree]
  | distinct negated =>
    rw [ho] at h
    refine Or.inl ?_
    cases negated with
    | false =>
      change peek features (.keyword .Is :: .keyword .Distinct :: .keyword .From :: t :: ts) = _
      rw [peek_is]
      simp [eat_keyword, peek_is_keyword, peek_nth_is_keyword, is_predicate, h, fold_of]
    | true =>
      change peek features (.keyword .Is :: .keyword .Not :: .keyword .Distinct ::
        .keyword .From :: t :: ts) = _
      rw [peek_is]
      simp [eat_keyword, peek_is_keyword, peek_nth_is_keyword, is_predicate, h, fold_of]
  | equality negated =>
    rw [ho] at h hfree
    simp only [takes, Bool.or_eq_false_iff] at hfree
    refine Or.inl ?_
    cases negated with
    | false =>
      change peek features (.keyword .Is :: t :: ts) = _
      have hnot : t ≠ .keyword .Not := by simpa using hfree.1
      have heat : eat_keyword .Not (t :: ts) = (false, t :: ts) := by
        simp [eat_keyword, peek_is_keyword, peek_nth_is_keyword, hnot]
      rw [peek_is, heat, is_predicate_of_plain h hfree.2 hquiet]
      rfl
    | true =>
      change peek features (.keyword .Is :: .keyword .Not :: t :: ts) = _
      have heat : eat_keyword .Not (.keyword .Not :: t :: ts) = (true, t :: ts) := by
        simp [eat_keyword, peek_is_keyword, peek_nth_is_keyword]
      rw [peek_is, heat, is_predicate_of_plain h hfree.2 hquiet]
      rfl
  | _ =>
    rw [ho] at h
    exact absurd h id

theorem not_either_of_fold {left : Nat} {read : Option ((Infix ⊕ Postfix) × List Token)}
    {ts rest : List Token} {o : Option Infix} {q : Postfix} :
    fold_of left read ts ≠ (.either o q, rest) := by
  rcases read with _ | ⟨o' | q', rest'⟩
  all_goals
    intro h
    cases h

theorem not_either_of_fold_infix {o : Infix} {ts rest : List Token} {o' : Option Infix}
    {q : Postfix} : fold_infix_of features o ts ≠ (.either o' q, rest) := by
  unfold fold_infix_of
  split
  all_goals
    intro h
    cases h

/-- The operator that is read is the one that is written only in front of a token that does not
    belong to it. -/
theorem free_of_picked {op : BinaryOperator} (h : Admits features op) {t : Token}
    {ts : List Token} (hquantifier : features.operator_syntax.postfix_operators = true →
      is_quantifier t = false) (hpicked : Picked features (infix_of op) (t :: ts)) :
    takes features (infix_of op) t = false := by
  have hmeans : ∀ {o : Infix} {means : BinaryOperator} {found : Fold Infix Postfix},
      o.means? = some means → fold_infix_of features o (t :: ts) = (found, t :: ts) →
      found = .inf o → (is_quantifiable_operator features means &&
        features.operator_syntax.quantified_comparisons && is_quantifier t) = false := by
    rintro o means found hmeans heq rfl
    unfold fold_infix_of at heq
    rw [hmeans, peek_quantifier_cons, Option.any_some, ← Bool.and_assoc] at heq
    split at heq
    · cases heq
    · rename_i hplain
      exact Bool.eq_false_of_not_eq_true hplain
  unfold Admits at h
  unfold Picked at hpicked
  cases ho : infix_of op with
  | symbol token means =>
    rw [ho] at h hpicked
    change peek features (.operator token :: t :: ts) = _ ∨
      ∃ q, peek features (.operator token :: t :: ts) = _ at hpicked
    rw [peek_operator, peek_symbolic, h.1] at hpicked
    split at hpicked
    · rename_i hpostfix
      rw [Bool.and_eq_true] at hpostfix
      rw [takes, hquantifier hpostfix.1, Bool.and_false]
    · rcases hpicked with hpeek | ⟨q, hpeek⟩
      · exact hmeans rfl (Option.some.inj hpeek) rfl
      · exact absurd (Option.some.inj hpeek) not_either_of_fold_infix
  | word keyword means =>
    rw [ho] at h hpicked
    change peek features (.keyword keyword :: t :: ts) = _ ∨
      ∃ q, peek features (.keyword keyword :: t :: ts) = _ at hpicked
    rw [peek_word h] at hpicked
    rcases hpicked with hpeek | ⟨q, hpeek⟩
    · exact hmeans rfl (Option.some.inj hpeek) rfl
    · exact absurd (Option.some.inj hpeek) not_either_of_fold_infix
  | distinct negated => rfl
  | equality negated =>
    rw [ho] at h hpicked
    have hread : ∀ {negated' : Bool} {ts' : List Token},
        (some (fold_of (predicate_binding_power features (.keyword .Is :: ts')).left
            (is_predicate features (eat_keyword .Not ts').1 (eat_keyword .Not ts').2)
            (.keyword .Is :: ts')) = some (.inf (.equality negated'), t :: ts) ∨
          ∃ q, some (fold_of (predicate_binding_power features (.keyword .Is :: ts')).left
            (is_predicate features (eat_keyword .Not ts').1 (eat_keyword .Not ts').2)
            (.keyword .Is :: ts')) = some (.either (some (.equality negated')) q, t :: ts)) →
        is_predicate features (eat_keyword .Not ts').1 (eat_keyword .Not ts').2 =
          some (.inl (.equality negated'), t :: ts) := by
      intro negated' ts' hpeek
      rcases hpeek with hpeek | ⟨q, hpeek⟩
      · cases hfound : is_predicate features (eat_keyword .Not ts').1 (eat_keyword .Not ts').2 with
        | none => rw [hfound] at hpeek; cases hpeek
        | some read =>
          obtain ⟨o' | q', rest'⟩ := read
          · rw [hfound] at hpeek
            cases hpeek
            rfl
          · rw [hfound] at hpeek
            cases hpeek
      · exact absurd (Option.some.inj hpeek) not_either_of_fold
    cases negated with
    | false =>
      change peek features (.keyword .Is :: t :: ts) = _ ∨
        ∃ q, peek features (.keyword .Is :: t :: ts) = _ at hpicked
      rw [peek_is] at hpicked
      have hfound := hread hpicked
      by_cases hnot : t = .keyword .Not
      · subst hnot
        have heat : eat_keyword .Not (.keyword .Not :: ts) = (true, ts) := by
          simp [eat_keyword, peek_is_keyword, peek_nth_is_keyword]
        rw [heat] at hfound
        cases negated_of_is_predicate hfound
      · have heat : eat_keyword .Not (t :: ts) = (false, t :: ts) := by
          simp [eat_keyword, peek_is_keyword, peek_nth_is_keyword, hnot]
        rw [heat] at hfound
        simp [takes, hnot, plain_of_is_predicate hfound]
    | true =>
      change peek features (.keyword .Is :: .keyword .Not :: t :: ts) = _ ∨
        ∃ q, peek features (.keyword .Is :: .keyword .Not :: t :: ts) = _ at hpicked
      rw [peek_is] at hpicked
      have hfound := hread hpicked
      have heat : eat_keyword .Not (.keyword .Not :: t :: ts) = (true, t :: ts) := by
        simp [eat_keyword, peek_is_keyword, peek_nth_is_keyword]
      rw [heat] at hfound
      simp [takes, plain_of_is_predicate hfound]
  | _ =>
    rw [ho] at h
    exact absurd h id

/-! ## What stands behind an operand -/

/-- The input behind an operand goes on with neither the operand nor a test in two words, and it
    starts with no operator whose power depends on what follows. -/
structure After (features : FeatureSet) (rest : List Token) : Prop where
  operand : operand_goes_on rest = false
  quiet : rest.head? ≠ some (.keyword .Normalized)
  firm : (reader features).Firm rest

theorem after_nil : After features [] := by
  refine ⟨rfl, fun h => (by cases h), fun o q rest h => ?_⟩
  rw [(reader_faithful features).peek_nil] at h
  cases h

theorem after_rparen (ts : List Token) : After features (.rparen :: ts) := by
  refine ⟨rfl, fun h => (by cases h), fun o q rest h => ?_⟩
  have hnone : (reader features).peek (.rparen :: ts) = none := peek_rparen ts
  rw [hnone] at h
  cases h

theorem after_infix (hgrouping : Grouping features ranks) {op : BinaryOperator}
    (h : Admits features op) (ts : List Token) : After features ((infix_of op).tokens ++ ts) := by
  have hword : ∀ (k : Keyword) (ts : List Token), k ≠ .Normalized →
      (∀ o q rest, peek features (.keyword k :: ts) ≠ some (.either o q, rest)) →
      After features (.keyword k :: ts) := by
    intro k ts hk hpeek
    refine ⟨rfl, fun hhead => hk ?_, fun o q rest hfound => absurd hfound (hpeek o q rest)⟩
    exact Token.keyword.inj (Option.some.inj hhead)
  have his : ∀ ts : List Token, After features (.keyword .Is :: ts) := by
    intro ts
    refine hword .Is ts (by decide) fun o q rest hfound => ?_
    rw [peek_is] at hfound
    exact not_either_of_fold (Option.some.inj hfound)
  unfold Admits at h
  cases ho : infix_of op with
  | symbol token means =>
    obtain rfl := means_of_symbol ho
    rw [ho] at h
    refine ⟨rfl, fun hhead => (by cases hhead), fun o q rest hfound => ?_⟩
    change peek features (.operator token :: ts) = _ at hfound
    rw [peek_operator, peek_symbolic, h.1] at hfound
    split at hfound
    · rename_i hpostfix
      rw [Bool.and_eq_true] at hpostfix
      obtain ⟨heq, -⟩ := Prod.mk.inj (Option.some.inj hfound)
      obtain ⟨rfl, rfl⟩ := Fold.either.inj heq
      exact ⟨_, rfl, hgrouping.symbol hpostfix.1 token means ho hpostfix.2⟩
    · exact absurd (Option.some.inj hfound) not_either_of_fold_infix
  | word keyword means =>
    rw [ho] at h
    refine hword keyword ts ?_ fun o q rest hfound => ?_
    · have hmem := infix_words h
      rintro rfl
      simp at hmem
    · rw [peek_word h] at hfound
      exact not_either_of_fold_infix (Option.some.inj hfound)
  | distinct negated => exact his _
  | equality negated => exact his _
  | _ =>
    rw [ho] at h
    exact absurd h id

/-- The atom of one token is read from it in front of anything that does not go on with it. -/
theorem head_atom_of_admits {a : Atom} (h : AdmitsAtom features a) {rest : List Token}
    (hrest : operand_goes_on rest = false) :
    head features (a.token :: rest) = some (.atom a, rest) := by
  have hparse : ∀ {t : Token} {rest₀ : List Token} {e : Expr},
      parse_word_or_literal features (t :: rest₀) = some (e, rest₀) →
      parse_word_or_literal features (t :: rest) = some (e, rest) := by
    intro t rest₀ e hread
    have hplain : (if operand_goes_on rest₀ then none
        else (column_name features t).map fun name => (Expr.Column name, rest₀)) = some (e, rest₀) →
        (if operand_goes_on rest then none
          else (column_name features t).map fun name => (Expr.Column name, rest)) =
            some (e, rest) := by
      intro hcolumn
      split at hcolumn
      · cases hcolumn
      · obtain ⟨name, hname, heq⟩ := Option.map_eq_some_iff.mp hcolumn
        rw [hrest, hname, ← (Prod.mk.inj heq).1]
        rfl
    cases t with
    | keyword k =>
      cases k
      case Null | True | False =>
        cases hread
        rfl
      all_goals exact hplain hread
    | number text =>
      cases hread
      rfl
    | string text =>
      rw [parse_word_or_literal] at hread ⊢
      split at hread
      · cases hread
      · cases hread
        rw [hrest]
        rfl
    | word => exact hplain hread
    | quoted_ident => exact hplain hread
    | parameter => exact hplain hread
    | operator => exact hplain hread
    | punctuation => exact hplain hread
  obtain ⟨⟨ts, rest₀, hhead⟩, -⟩ := h
  obtain rfl : ts = a.token :: rest₀ := by
    rcases head_inv hhead with ⟨hfront, -⟩ | ⟨p, hfront, -⟩ | ⟨b, hfront, hts⟩
    · cases hfront
    · cases hfront
    · rw [hts, Head.atom.inj hfront]
  rw [head] at hhead ⊢
  split at hhead
  · cases hhead
  rename_i hparen
  rw [if_neg hparen]
  split at hhead
  · cases hhead
  obtain ⟨⟨b, rest'⟩, hatom, heq⟩ := Option.map_eq_some_iff.mp hhead
  obtain ⟨hb, rfl⟩ := Prod.mk.inj heq
  obtain rfl := Head.atom.inj hb
  rw [atom_head_iff.mpr (hparse (atom_head_iff.mp hatom))]
  rfl

theorem head_prefix {op : UnaryOperator} (hprior : op ≠ .Prior)
    (htilde : op = .BitwiseNot → features.operator_syntax.bitwise_operators = true)
    (ts : List Token) :
    head features ((Prefix.unary op).token :: ts) = some (.pre (.unary op), ts) := by
  have hprefix : prefix_operator features (Prefix.unary op).token = some (.unary op) := by
    cases op with
    | Prior => exact absurd rfl hprior
    | BitwiseNot => simp [Prefix.token, prefix_operator, htilde rfl]
    | _ => rfl
  have hparen : (Prefix.unary op).token ≠ .lparen := by
    cases op <;> exact Token.noConfusion
  rw [head, if_neg hparen, hprefix]

/-- Only a form's name and `NORMALIZED` itself open a test for it, and no operand goes on so. -/
theorem leading_normalized (hgrouping : Grouping features ranks) {c : Written}
    (h : Canonical features c) {rest : List Token} (hafter : After features rest)
    (hnormalized : peek_normalized (c.tokens lexicon ++ rest) = true) :
    leading c = some (.keyword .Normalized) := by
  induction c generalizing rest with
  | atom a =>
    have htokens : (Cst.atom a : Written).tokens lexicon ++ rest = a.token :: rest := rfl
    rw [htokens] at hnormalized
    simp only [peek_normalized, peek_is_keyword, peek_nth_is_keyword, List.getElem?_cons_zero,
      List.getElem?_cons_succ, Bool.or_eq_true, Bool.and_eq_true, beq_iff_eq] at hnormalized
    rcases hnormalized with hself | ⟨-, hnext⟩
    · exact hself
    · rw [← List.head?_eq_getElem?] at hnext
      exact absurd hnext hafter.quiet
  | group c ih => cases hnormalized
  | pre p c ih =>
    obtain ⟨⟨op, rfl, -⟩, -⟩ := h
    cases op <;> cases hnormalized
  | inf l o r ihl _ =>
    obtain ⟨⟨op, rfl, hadmits, -⟩, hl, -⟩ := h
    rw [Cst.tokens, List.append_assoc, List.append_assoc] at hnormalized
    have hlead := ihl hl ( after_infix hgrouping hadmits _) hnormalized
    rw [leading, Cst.tokens, List.head?_append]
    exact congrArg (Option.or · _) hlead
  | mix => exact absurd h id
  | post => exact absurd h id

/-! ## Fitting expressions -/

/-- Every operator stands where it is read and every operand is as tight as it is read. -/
def Fits (features : FeatureSet) : Written → Prop
  | .atom _ => True
  | .group c => Fits features c
  | .pre p c => (reader features).LeftSpine ((reader features).prePower p) c ∧ Fits features c
  | .inf l o r =>
    Fits features l ∧ (reader features).RightSpine ((reader features).left o) l ∧
      (reader features).blocked l (.inl o) = false ∧
      (∀ t, leading r = some t → takes features o t = false) ∧
      (reader features).LeftSpine ((reader features).right o) r ∧ Fits features r
  | _ => False

theorem exists_leading {c : Written} (h : Canonical features c) (rest : List Token) :
    ∃ t ts, leading c = some t ∧ c.tokens lexicon ++ rest = t :: ts := by
  cases hc : c.tokens lexicon with
  | nil =>
    obtain ⟨front, a, k, -, htokens⟩ := tokens_last h
    rw [hc] at htokens
    exact absurd htokens.symm (by simp)
  | cons t ts => exact ⟨t, ts ++ rest, by rw [leading, hc]; rfl, rfl⟩

theorem cont_infix_of (op : BinaryOperator) (rest : List Token) :
    (reader features).cont (infix_of op) rest = some none := by
  cases op
  all_goals first
    | rfl
    | (rename_i spelling; cases spelling <;> rfl)

/-- No atom is a quantifier where an operator may be postfix. -/
theorem not_quantifier_of_leading (hgrouping : Grouping features ranks) {c : Written}
    (h : Canonical features c) {t : Token} (ht : leading c = some t)
    ( hpostfix : features.operator_syntax.postfix_operators = true) : is_quantifier t = false := by
  induction c with
  | atom a =>
    obtain rfl : a.token = t := Option.some.inj ht
    obtain ⟨hany, hall, hsome⟩ := hgrouping.quantifiers_reserved hpostfix
    by_contra hquantifier
    rw [Bool.not_eq_false] at hquantifier
    have hcases : ∃ k, a.token = .keyword k ∧ (k = .Any ∨ k = .All ∨ k = .Some) := by
      simp only [is_quantifier, Bool.or_eq_true, beq_iff_eq] at hquantifier
      rcases hquantifier with (h | h) | h
      · exact ⟨_, h, Or.inl rfl⟩
      · exact ⟨_, h, Or.inr (Or.inl rfl)⟩
      · exact ⟨_, h, Or.inr (Or.inr rfl)⟩
    obtain ⟨k, htoken, hk⟩ := hcases
    have hhead := @head_atom_of_admits _ _ h [] rfl
    have hreserved : column_name features (.keyword k) = none := by
      rcases hk with rfl | rfl | rfl
      · simp [column_name, hany]
      · simp [column_name, hall]
      · simp [column_name, hsome]
    have hnone : head features [.keyword k] = none := by
      rcases hk with rfl | rfl | rfl
      all_goals
        simp [head, prefix_operator, atom_head, parse_word_or_literal, operand_goes_on, hreserved]
    rw [htoken, hnone] at hhead
    cases hhead
  | group c => rw [← Option.some.inj ht]; rfl
  | pre p c =>
    obtain ⟨⟨op, rfl, -⟩, -⟩ := h
    rw [← Option.some.inj ht]
    cases op <;> rfl
  | inf l o r ihl _ =>
    obtain ⟨u, us, hu, -⟩ := exists_leading h.2.1 []
    rw [leading, Cst.tokens, List.head?_append] at ht
    have hlead : (l.tokens lexicon).head? = some u := hu
    rw [hlead] at ht
    exact ihl h.2.1 (hu.trans ht)
  | mix => exact absurd h id
  | post => exact absurd h id

theorem bound_of_picked (hgrouping : Grouping features ranks) {op : BinaryOperator}
    (h : Admits features op) {ts : List Token} (hpicked : Picked features (infix_of op) ts) :
    ∃ f, peek features ((infix_of op).tokens ++ ts) = some (f, ts) ∧
      (reader features).bound f = (reader features).left (infix_of op) := by
  rcases hpicked with hpeek | ⟨q, hpeek⟩
  · exact ⟨_, hpeek, rfl⟩
  · refine ⟨_, hpeek, ?_⟩
    obtain ⟨i, hi, heq⟩ := ( after_infix hgrouping h ts).firm _ _ _ hpeek
    obtain rfl := Option.some.inj hi
    rw [Reader.bound, Option.elim_some, heq]
    exact Nat.max_self _

/-- A canonical expression groups as it is written exactly if it fits. -/
theorem grouped_iff_fits (hgrouping : Grouping features ranks) {c : Written}
    (h : Canonical features c) {rest : List Token} (hafter : After features rest) :
    (reader features).Grouped c rest ↔ Fits features c := by
  induction c generalizing rest with
  | atom a => exact iff_of_true (head_atom_of_admits h hafter.operand) trivial
  | group c ih => exact ih h (after_rparen rest)
  | pre p c ih =>
    obtain ⟨⟨op, rfl, hprior, htilde⟩, hc⟩ := h
    have hhead := head_prefix hprior htilde (c.tokens lexicon ++ rest)
    constructor
    · rintro ⟨-, hspine, hgrouped⟩
      exact ⟨hspine, (ih hc hafter).mp hgrouped⟩
    · rintro ⟨hspine, hfits⟩
      exact ⟨hhead, hspine, (ih hc hafter).mpr hfits⟩
  | inf l o r ihl ihr =>
    obtain ⟨⟨op, rfl, hadmits, -⟩, hl, hr⟩ := h
    obtain ⟨t, ts, hlead, htokens⟩ := exists_leading hr rest
    have hbehind := after_infix hgrouping hadmits (r.tokens lexicon ++ rest)
    have hspine : Picked features (infix_of op) (r.tokens lexicon ++ rest) →
        ((reader features).RightStops ((infix_of op).tokens ++ (r.tokens lexicon ++ rest)) l ↔
          (reader features).RightSpine ((reader features).left (infix_of op)) l) := by
      intro hpicked
      obtain ⟨f, hpeek, hbound⟩ := bound_of_picked hgrouping hadmits hpicked
      rw [Reader.rightStops_iff_of_peek hpeek l, hbound]
    constructor
    · rintro ⟨hgroupedL, hright, ⟨hpicked, hfree⟩, hleft, hgroupedR, -⟩
      refine ⟨(ihl hl hbehind).mp hgroupedL, (hspine hpicked).mp hright, hfree, ?_, hleft,
        (ihr hr hafter).mp hgroupedR⟩
      intro u hu
      rw [hlead] at hu
      obtain rfl := Option.some.inj hu
      have hpicked' : Picked features (infix_of op) (r.tokens lexicon ++ rest) := hpicked
      rw [htokens] at hpicked'
      exact free_of_picked hadmits (not_quantifier_of_leading hgrouping hr hlead) hpicked'
    · rintro ⟨hfitsL, hright, hfree, htakes, hleft, hfitsR⟩
      have hpicked : Picked features (infix_of op) (r.tokens lexicon ++ rest) := by
        rw [htokens]
        refine picked_of_admits hadmits (htakes t hlead) fun hnormalized => ?_
        rw [← htokens] at hnormalized
        have hself := leading_normalized hgrouping hr hafter hnormalized
        rw [hlead] at hself
        exact Option.some.inj hself
      exact ⟨(ihl hl hbehind).mpr hfitsL, (hspine hpicked).mpr hright, ⟨hpicked, hfree⟩, hleft,
        (ihr hr hafter).mpr hfitsR, cont_infix_of op rest⟩
  | mix => exact absurd h id
  | post => exact absurd h id

end squonk.render
