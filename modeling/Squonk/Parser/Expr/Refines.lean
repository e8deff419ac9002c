import Squonk.Dialect.Presets
import Squonk.Parser.Expr.Faithful

/-!
# The parser is the climb

The expression parser returns the tree of what the precedence climb reads, at every depth and
on every input.
-/

open squonk.ast squonk.tokenizer squonk.dialect squonk.precedence climbing

namespace squonk.parser.expr

/-- What the climb relies on where a dialect has operators that are postfix or infix, or arrows
    that are lambdas. -/
structure Regular (features : FeatureSet) : Prop where
  postfix_left_le : features.operator_syntax.postfix_operators = true →
    ∀ op means, is_postfix_symbolic_operator op = true → infix_operator features op = some means →
      (features.binding_power means).left ≤ features.binding_powers.any_operator.left
  quantifiers_reserved : features.operator_syntax.postfix_operators = true →
    features.reserved_column_name .Any = true ∧ features.reserved_column_name .All = true ∧
      features.reserved_column_name .Some = true
  lambda_plain : features.operator_syntax.lambda_expressions = true →
    features.operator_syntax.quantified_arbitrary_operator = false

theorem regular_of_fixed {features : FeatureSet}
    (hpost_text : features.operator_syntax.postfix_operators = false)
    (hlambda : features.operator_syntax.lambda_expressions = false) : Regular features where
  postfix_left_le h := by rw [hpost_text] at h; cases h
  quantifiers_reserved h := by rw [hpost_text] at h; cases h
  lambda_plain h := by rw [hlambda] at h; cases h

/-- The symbols that may be infix and may be postfix. -/
def with_both_roles : List Operator :=
  [.AmpAmp, .Amp, .Pipe, .ShiftLeft, .ShiftRight, .Concat, .LtAt, .AtGt, .CaretAt]

theorem mem_with_both_roles {features : FeatureSet} {op : Operator} {means : BinaryOperator}
    (hop : is_postfix_symbolic_operator op = true)
    (hmeans : infix_operator features op = some means) : op ∈ with_both_roles := by
  cases op
  all_goals first
    | decide
    | (cases hop; done)
    | cases hmeans

theorem postfix_left_le_of_all {features : FeatureSet}
    (hall : ∀ op ∈ with_both_roles, (infix_operator features op).all (fun means =>
      decide ((features.binding_power means).left ≤
        features.binding_powers.any_operator.left)) = true) (op : Operator) (means : BinaryOperator)
    (hop : is_postfix_symbolic_operator op = true)
    (hmeans : infix_operator features op = some means) :
    (features.binding_power means).left ≤ features.binding_powers.any_operator.left := by
  have hle := hall op (mem_with_both_roles hop hmeans)
  rw [hmeans] at hle
  exact of_decide_eq_true hle

theorem builtin_regular (dialect : BuiltinDialect) : Regular dialect.features := by
  cases dialect
  case DuckDb =>
    exact ⟨fun _ => postfix_left_le_of_all (by decide), fun _ => by decide, fun _ => rfl⟩
  case Lenient =>
    exact ⟨fun _ => postfix_left_le_of_all (by decide), fun _ => by decide, fun h => by cases h⟩
  all_goals exact regular_of_fixed rfl rfl

variable {features : FeatureSet}

/-- What a read of the climb is to the parser. -/
def tree (features : FeatureSet) (read : Option (Written × List Token)) :
    Option (Expr × List Token) :=
  read.map fun (c, rest) => (erase features c, rest)

@[simp] theorem tree_none : tree features none = none := rfl

@[simp] theorem tree_some (c : Written) (rest : List Token) :
    tree features (some (c, rest)) = some (erase features c, rest) := rfl

section Turns

variable (climb : Nat → List Token → Option (Written × List Token))

/-! ## Operands -/

theorem parse_prefix_eq (ts : List Token) :
    parse_prefix features (fun min ts => tree features (climb min ts)) ts =
      ((reader features).operand climb ts).map fun (c, rest) =>
        (⟨erase features c, c.isGroup⟩, rest) := by
  cases ts with
  | nil => rfl
  | cons t ts =>
    simp only [ parse_prefix, Reader.operand, reader, head]
    by_cases ht : t = .lparen
    · simp only [ht, if_true]
      cases hread : climb 0 ts with
      | none => rfl
      | some read =>
        obtain ⟨c, rest⟩ := read
        cases rest with
        | nil => rfl
        | cons t' rest =>
          by_cases ht' : t' = .rparen
          · subst ht'
            rfl
          · rw [tree_some]
            simp only [lexicon]
            split
            · rename_i heq
              cases heq
              exact absurd rfl ht'
            · simp [ht']
    · simp only [if_neg ht]
      cases hstart : prefix_operator features t with
      | some p =>
        simp only
        cases hread : climb (p.power features) ts with
        | none => rfl
        | some read => rfl
      | none =>
        simp only
        cases hatom : atom_head features (t :: ts) with
        | some read =>
          obtain ⟨a, rest⟩ := read
          rw [atom_head_iff.mp hatom]
          rfl
        | none =>
          cases hparse : parse_word_or_literal features (t :: ts) with
          | none => rfl
          | some read =>
            obtain ⟨e, rest⟩ := read
            obtain ⟨a, rfl, -⟩ := parse_word_or_literal_ok hparse
            rw [atom_head_iff.mpr hparse] at hatom
            cases hatom

theorem follows_eq (t : Token) (ts : List Token) :
    peek_operand_follows_operator features (fun min ts => tree features (climb min ts)) (t :: ts) =
      (reader features).follows climb ts := by
  have hstart : ( parse_prefix features (fun min ts => tree features (climb min ts)) ts).isSome =
      ((reader features).operand climb ts).isSome := by
    rw [parse_prefix_eq, Option.isSome_map]
  unfold peek_operand_follows_operator Reader.follows
  rw [List.tail_cons, ← hstart]
  simp only [reader]
  unfold surely
  split <;> simp

/-! ## Predicates -/

/-- The operators of the predicates. -/
def names_predicate : Infix ⊕ Postfix → Bool
  | .inl (.distinct _) | .inl (.equality _) | .inl (.negated_word _ _) | .inl (.between _ _)
  | .inl (.like _ _) => true
  | .inr (.is_null _) | .inr (.null_word _) | .inr .not_null | .inr (.truth _ _) => true
  | _ => false

omit climb in
theorem range_predicate_at_succ (n : Nat) (ts : List Token) :
    range_predicate_at features (n + 1) ts = range_predicate_at features n ts.tail := by
  simp only [range_predicate_at, similar_to_at, peek_nth_succ]

omit climb in
theorem keyword_operator_at_succ (n : Nat) (ts : List Token) :
    keyword_operator_at features (n + 1) ts = keyword_operator_at features n ts.tail := by
  cases ts <;> simp [keyword_operator_at]

omit climb in
theorem is_predicate_rank {negated : Bool} {ts rest : List Token} {k : Infix ⊕ Postfix}
    (h : is_predicate features negated ts = some (k, rest)) :
    rank features k = features.binding_powers.predicate ∧ names_predicate k = true := by
  unfold is_predicate at h
  repeat' split at h
  all_goals first
    | (obtain ⟨rfl, rfl⟩ := Prod.mk.inj (Option.some.inj h); exact ⟨rfl, rfl⟩)
    | cases h

omit climb in
theorem starts_range_of_eat {ts behind : List Token} {negated : Bool}
    (heat : eat_keyword .Not ts = (negated, behind)) :
    peek_starts_range_predicate features ts = range_predicate_at features 0 behind := by
  have hbehind : behind = (eat_keyword .Not ts).2 := by rw [heat]
  rw [hbehind]
  unfold peek_starts_range_predicate eat_keyword
  rw [range_predicate_at_succ]
  cases hnot : peek_is_keyword .Not ts with
  | false => simp
  | true =>
    have hhead : range_predicate_at features 0 ts = false := by
      rw [peek_is_keyword_iff.mp hnot]
      simp [range_predicate_at, similar_to_at, peek_nth_is_keyword]
    simp [hhead]

omit climb in
theorem negated_word_of_eat {ts behind : List Token} {negated : Bool}
    (heat : eat_keyword .Not ts = (negated, behind)) :
    (peek_is_keyword .Not ts && (keyword_operator_at features 1 ts).isSome) =
      (negated && (keyword_operator_at features 0 behind).isSome) := by
  have heaten : negated = (eat_keyword .Not ts).1 ∧ behind = (eat_keyword .Not ts).2 := by
    rw [heat]
    exact ⟨rfl, rfl⟩
  rw [heaten.1, heaten.2]
  unfold eat_keyword
  rw [keyword_operator_at_succ]
  cases hnot : peek_is_keyword .Not ts <;> simp

omit climb in
/-- A range, pattern or membership predicate is climbed at the rank of these. -/
theorem binding_power_of_range {ts behind : List Token} {negated : Bool}
    (hoverlaps : peek_overlaps features ts = false)
    (heat : eat_keyword .Not ts = (negated, behind))
    (hrange : range_predicate_at features 0 behind = true) :
    predicate_binding_power features ts = features.binding_powers.range_predicate := by
  rw [predicate_binding_power, hoverlaps, starts_range_of_eat heat, hrange]
  rfl

omit climb in
/-- The rank a predicate is climbed at is that of the operator it turns out to be. -/
theorem predicate_rank {ts rest : List Token} {k : Infix ⊕ Postfix}
    (h : parse_predicate_head features ts = some (k, rest)) :
    predicate_binding_power features ts = rank features k ∧ names_predicate k = true := by
  obtain ⟨hoverlaps, hhead⟩ := predicate_head_inv h
  have hword : ∀ {word : Keyword}, word ∈ [Keyword.Is, .Isnull, .Notnull] →
      peek_is_keyword word ts = true →
      predicate_binding_power features ts = features.binding_powers.predicate := by
    intro word hword hpeek
    rw [predicate_binding_power, hoverlaps, peek_is_keyword_iff.mp hpeek]
    simp only [List.mem_cons, List.not_mem_nil, or_false] at hword
    rcases hword with rfl | rfl | rfl <;>
      simp [peek_starts_range_predicate, range_predicate_at, similar_to_at, peek_is_keyword,
        peek_nth_is_keyword]
  cases hhead with
  | is his h =>
    obtain ⟨hrank, hnames⟩ := is_predicate_rank h
    exact ⟨by rw [hword (by decide) his, hrank], hnames⟩
  | isnull hisnull => exact ⟨hword (by decide) hisnull, rfl⟩
  | notnull hnotnull => exact ⟨hword (by decide) hnotnull, rfl⟩
  | @not_null behind heat hnull =>
    refine ⟨?_, rfl⟩
    rw [predicate_binding_power, hoverlaps, starts_range_of_eat heat, negated_word_of_eat heat,
      peek_is_keyword_iff.mp hnull]
    simp [range_predicate_at, similar_to_at, peek_nth_is_keyword, keyword_operator_at,
      KeywordOperators.binary_operator, rank]
  | between heat hbetween =>
    refine ⟨binding_power_of_range hoverlaps heat ?_, rfl⟩
    rw [peek_is_keyword] at hbetween
    simp [range_predicate_at, hbetween]
  | like heat hlike hword =>
    refine ⟨binding_power_of_range hoverlaps heat ?_, rfl⟩
    rw [peek_is_keyword] at hword
    simp [range_predicate_at, hlike, hword]
  | ilike heat hilike hword =>
    refine ⟨binding_power_of_range hoverlaps heat ?_, rfl⟩
    rw [peek_is_keyword] at hword
    simp [range_predicate_at, hilike, hword]
  | similar heat hsimilar hword hto =>
    refine ⟨binding_power_of_range hoverlaps heat ?_, rfl⟩
    rw [peek_is_keyword] at hword
    simp [range_predicate_at, similar_to_at, hsimilar, hword, hto]
  | negated_word heat hrange hop =>
    refine ⟨?_, rfl⟩
    rw [predicate_binding_power, hoverlaps, starts_range_of_eat heat, hrange,
      negated_word_of_eat heat, hop]
    rfl

theorem checks_chain_of_names_predicate {k : Infix ⊕ Postfix} (h : names_predicate k = true) :
    checks_chain k = true := by
  rcases k with o | q
  · cases o <;> first | rfl | cases h
  · cases q <;> first | rfl | cases h

theorem step_of_blocked {c : Written} {o : Infix ⊕ Postfix} {ts : List Token}
    (h : (reader features).blocked c o = true) :
    (reader features).step climb c (.inr o) ts = none := by
  rcases o with o | q
  · rw [Reader.step, if_pos h]
  · rw [Reader.step, if_pos h]

theorem step_predicate {c : Written} {o : Infix} {ts : List Token}
    (hnames : names_predicate (.inl o) = true)
    (hfree : (reader features).blocked c (.inl o) = false) :
    parse_predicate_operands features (fun min ts => tree features (climb min ts))
        (erase features c) o ts =
      tree features ((reader features).step climb c (.inr (.inl o)) ts) := by
  rw [Reader.step, if_neg (by simp [hfree])]
  cases o with
  | between negated modifier =>
    simp only [parse_predicate_operands, reader, right_power, rank, continues]
    cases climb features.binding_powers.range_predicate.right ts with
    | none => rfl
    | some read =>
      obtain ⟨low, rest⟩ := read
      rw [tree_some]
      cases hand : peek_is_keyword .And rest with
      | false =>
        simp only [hand, Bool.false_eq_true, if_false, tree_none]
        split
        · rename_i heq
          simp only [Option.some.injEq, Prod.mk.injEq] at heq
          rw [heq.2] at hand
          simp [peek_is_keyword, peek_nth_is_keyword] at hand
        · rfl
      | true =>
        rw [peek_is_keyword_iff.mp hand]
        simp only [peek_is_keyword, peek_nth_is_keyword, List.getElem?_cons_zero, beq_self_eq_true,
          if_true, List.tail_cons]
        cases climb features.binding_powers.range_predicate.right rest.tail with
        | none => rfl
        | some read => rfl
  | like negated spelling =>
    simp only [parse_predicate_operands, reader, right_power, rank, continues]
    cases climb features.binding_powers.range_predicate.right ts with
    | none => rfl
    | some read =>
      obtain ⟨pattern, rest⟩ := read
      rw [tree_some]
      cases hescape : peek_is_keyword .Escape rest with
      | false =>
        simp only [hescape, Bool.false_eq_true, if_false]
        rfl
      | true =>
        simp only [hescape, if_true]
        cases climb features.binding_powers.range_predicate.right rest.tail with
        | none => rfl
        | some read => rfl
  | distinct negated =>
    simp only [parse_predicate_operands, reader, right_power, rank, continues]
    cases climb features.binding_powers.predicate.right ts with
    | none => rfl
    | some read => rfl
  | equality negated =>
    simp only [parse_predicate_operands, reader, right_power, continues]
    cases climb (features.binding_power (.Eq .Single)).right ts with
    | none => rfl
    | some read => rfl
  | negated_word keyword means =>
    simp only [parse_predicate_operands, reader, right_power, continues]
    cases climb (features.binding_power means).right ts with
    | none => rfl
    | some read => rfl
  | _ => cases hnames

/-! ## One turn -/

variable (min : Nat) (c : Written)

/-- A turn of the climb on a settled operator. -/
def settled_turn (features : FeatureSet) (op : Nat ⊕ (Infix ⊕ Postfix)) (rest : List Token) :
    Option Turn :=
  Turn.fold ((reader features).power op) min
    (tree features ((reader features).step climb c op rest))

/-- A turn of the climb on what stands at the front. -/
def reader_turn (features : FeatureSet) (found : Option (Fold Infix Postfix × List Token)) :
    Option Turn :=
  match found with
  | none => some .break
  | some (f, rest) =>
    match (reader features).settle climb f rest with
    | none => some .break
    | some op => settled_turn climb min c features op rest

theorem reader_turn_refused (power : Nat) (rest : List Token) :
    reader_turn climb min c features (some (.refused power, rest)) = Turn.fold power min none := rfl

theorem reader_turn_inf (o : Infix) (rest : List Token) :
    reader_turn climb min c features (some (.inf o, rest)) =
      settled_turn climb min c features (.inr (.inl o)) rest := rfl

theorem reader_turn_post (q : Postfix) (rest : List Token) :
    reader_turn climb min c features (some (.post q, rest)) =
      settled_turn climb min c features (.inr (.inr q)) rest := rfl

theorem predicate_turn (ts : List Token) :
    Turn.fold (predicate_binding_power features ts).left min
        (if reject_nonassoc_chain features (erase features c)
            (predicate_binding_power features ts) c.isGroup then none
          else parse_predicate features (fun min ts => tree features (climb min ts))
            (erase features c) ts) =
      reader_turn climb min c features (some (fold_of (predicate_binding_power features ts).left
        (parse_predicate_head features ts) ts)) := by
  unfold parse_predicate
  cases hhead : parse_predicate_head features ts with
  | none =>
    rw [ite_self]
    rfl
  | some read =>
    obtain ⟨k, rest⟩ := read
    obtain ⟨hrank, hnames⟩ := predicate_rank hhead
    have hblocked : (reader features).blocked c k =
        reject_nonassoc_chain features (erase features c) (rank features k) c.isGroup := by
      simp only [reader, checks_chain_of_names_predicate hnames, Bool.true_and]
    rcases k with o | q
    · rw [fold_of, reader_turn_inf, settled_turn, hrank, ← hblocked]
      cases hfree : (reader features).blocked c (.inl o) with
      | true =>
        rw [step_of_blocked climb hfree]
        rfl
      | false => rw [← step_predicate climb hnames hfree]; rfl
    · rw [fold_of, reader_turn_post, settled_turn, hrank, ← hblocked]
      cases hfree : (reader features).blocked c (.inr q) with
      | true =>
        rw [step_of_blocked climb hfree]
        rfl
      | false =>
        simp only [Reader.step, hfree, Bool.false_eq_true, if_false]
        rfl

theorem postfix_rank {ts rest : List Token} {op : PostfixOp} {k : Infix ⊕ Postfix}
    (h : parse_postfix_head features op ts = some (k, rest)) :
    (op.binding_power features.binding_powers) = rank features k ∧
      (reader features).blocked c k = false := by
  cases op with
  | Collate =>
    simp only [parse_postfix_head] at h
    split at h
    · cases h
    · obtain ⟨name, -, heq⟩ := Option.map_eq_some_iff.mp h
      obtain ⟨rfl, rfl⟩ := Prod.mk.inj heq
      exact ⟨rfl, rfl⟩
  | AtTimeZone =>
    obtain ⟨rfl, rfl⟩ := Prod.mk.inj (Option.some.inj h)
    exact ⟨rfl, rfl⟩
  | _ => cases h

theorem postfix_turn {ts : List Token} {op : PostfixOp}
    (hmin : min ≤ (op.binding_power features.binding_powers).left) :
    Turn.fold min min ( parse_postfix features (fun min ts => tree features (climb min ts))
        (erase features c) op ts) =
      reader_turn climb min c features (some (fold_of (op.binding_power features.binding_powers).left
        (parse_postfix_head features op ts) ts)) := by
  unfold parse_postfix
  cases hhead : parse_postfix_head features op ts with
  | none =>
    rw [fold_of, reader_turn_refused, Turn.fold, Turn.fold, if_neg (Nat.lt_irrefl min),
      if_neg (Nat.not_lt.mpr hmin)]
  | some read =>
    obtain ⟨k, rest⟩ := read
    obtain ⟨hrank, hfree⟩ := postfix_rank c hhead
    rcases k with o | q
    · have ho : o = .at_time_zone := by
        cases op with
        | AtTimeZone => exact Sum.inl.inj (Prod.mk.inj (Option.some.inj hhead)).1.symm
        | Collate =>
          simp only [parse_postfix_head] at hhead
          split at hhead
          · cases hhead
          · obtain ⟨name, -, heq⟩ := Option.map_eq_some_iff.mp hhead
            cases heq
        | _ => cases hhead
      subst ho
      rw [fold_of, reader_turn_inf, settled_turn, Reader.step, if_neg (by simp [hfree]),
        Turn.fold, Turn.fold, if_neg (Nat.lt_irrefl min), if_neg (by
          rw [hrank] at hmin
          exact Nat.not_lt.mpr hmin)]
      simp only [reader, right_power, rank, continues]
      cases climb features.binding_powers.at_time_zone.right rest with
      | none => rfl
      | some read => rfl
    · rw [fold_of, reader_turn_post, settled_turn, Reader.step, if_neg (by simp [hfree]),
        Turn.fold, Turn.fold, if_neg (Nat.lt_irrefl min), if_neg (by
          rw [hrank] at hmin
          exact Nat.not_lt.mpr hmin)]
      rfl

theorem peek_symbolic_of_postfix {ts : List Token} {op : PostfixOp}
    (h : peek_postfix_operator features ts = some op) : peek_symbolic features ts = none := by
  unfold peek_postfix_operator at h
  split at h
  · rfl
  · rfl
  · rfl
  · rfl
  · split at h
    · rename_i hcollate
      simp only [Bool.and_eq_true] at hcollate
      rw [peek_is_keyword_iff.mp hcollate.1.2]
      cases hwords : features.keyword_operators <;>
        simp [peek_symbolic, peek_operator_construct, peek_is_keyword, peek_nth_is_keyword,
          keyword_operator, hwords, KeywordOperators.binary_operator]
    · split at h
      · rename_i hat
        simp only [Bool.and_eq_true] at hat
        rw [peek_is_keyword_iff.mp hat.1.1.2]
        cases hwords : features.keyword_operators <;>
          simp [peek_symbolic, peek_operator_construct, peek_is_keyword, peek_nth_is_keyword,
            keyword_operator, hwords, KeywordOperators.binary_operator]
      · cases h

/-- Where an operand follows, no quantifier does. -/
theorem not_quantified_of_follows (hregular : Regular features)
    (hpost_text : features.operator_syntax.postfix_operators = true) {ts : List Token}
    (h : (reader features).follows climb ts = true) : peek_quantifier features ts = false := by
  by_contra hquantifier
  rw [Bool.not_eq_false] at hquantifier
  obtain ⟨hany, hall, hsome⟩ := hregular.quantifiers_reserved hpost_text
  have hhead : ∃ word, ts = .keyword word :: ts.tail ∧ (word = .Any ∨ word = .All ∨ word = .Some) := by
    simp only [peek_quantifier, Bool.and_eq_true, Bool.or_eq_true] at hquantifier
    rcases hquantifier.2 with (h | h) | h
    · exact ⟨_, peek_is_keyword_iff.mp h, Or.inl rfl⟩
    · exact ⟨_, peek_is_keyword_iff.mp h, Or.inr (Or.inl rfl)⟩
    · exact ⟨_, peek_is_keyword_iff.mp h, Or.inr (Or.inr rfl)⟩
  obtain ⟨word, hts, hword⟩ := hhead
  have hreserved : features.reserved_column_name word = true := by
    rcases hword with rfl | rfl | rfl <;> assumption
  have hhead : (reader features).head (.keyword word :: ts.tail) = none := by
    rcases hword with rfl | rfl | rfl
    all_goals
      simp [reader, head, prefix_operator, atom_head, parse_word_or_literal, column_name, hreserved]
  rw [hts, Reader.follows, Reader.operand, hhead] at h
  cases h

theorem fold_infix_turn (hregular : Regular features) {o : Infix} {op : BinaryOperator}
    (t : Token) (rest : List Token) (ho : o.means? = some op) :
    Turn.fold (features.binding_power op).left min
        ( fold_infix features (fun min ts => tree features (climb min ts)) (erase features c)
          c.isGroup op (features.binding_power op) (t :: rest)) =
      reader_turn climb min c features (some (fold_infix_of features o rest)) := by
  have hrank : rank features (.inl o) = features.binding_power op := by
    cases o <;> cases ho <;> rfl
  have hblocked : (reader features).blocked c (.inl o) =
      reject_nonassoc_chain features (erase features c) (features.binding_power op) c.isGroup := by
    rw [← hrank]
    cases o <;> first | rfl | cases ho
  have hlambda : (op == .JsonGet && features.operator_syntax.lambda_expressions &&
      (lambda_param (erase features c) c.isGroup).isSome) = true →
      is_quantifiable_operator features op = false := by
    intro h
    simp only [Bool.and_eq_true, beq_iff_eq] at h
    rw [h.1.1]
    simp [is_quantifiable_operator, is_comparison_operator, hregular.lambda_plain h.1.2]
  have hfold : fold_infix_of features o rest =
      if (is_quantifiable_operator features op && peek_quantifier features rest) = true then
        (.refused (features.binding_power op).left, rest)
      else (.inf o, rest) := by
    rw [fold_infix_of, ho, Option.any_some, hrank]
  rw [hfold, fold_infix, List.tail_cons]
  cases hquantified : is_quantifiable_operator features op && peek_quantifier features rest with
  | true =>
    rw [if_pos rfl, reader_turn_refused]
    have hplain : (op == .JsonGet && features.operator_syntax.lambda_expressions &&
        (lambda_param (erase features c) c.isGroup).isSome) = false := by
      by_contra h
      rw [Bool.not_eq_false] at h
      rw [hlambda h] at hquantified
      cases hquantified
    simp only [hplain, Bool.not_false, Bool.true_and, hquantified, if_true, ite_self]
  | false =>
    simp only [Bool.and_assoc, hquantified, Bool.and_false, Bool.false_eq_true, if_false]
    rw [reader_turn_inf, settled_turn]
    rw [← hblocked]
    have hpower : (reader features).power (.inr (.inl o)) = (features.binding_power op).left := by
      rw [← hrank]
      rfl
    rw [hpower]
    congr 1
    cases hfree : (reader features).blocked c (.inl o) with
    | true =>
      rw [step_of_blocked climb hfree]
      rfl
    | false =>
      have hright : (reader features).right o = (features.binding_power op).right := by
        rw [← hrank]
        cases o <;> first | rfl | cases ho
      have hcont : ∀ ts, (reader features).cont o ts = some none := by
        intro ts
        cases o <;> first | rfl | cases ho
      have hbuild : ∀ r, o.build features (erase features c) c.isGroup r =
          infix_expr features (erase features c) c.isGroup op r := by
        intro r
        cases o <;> cases ho <;> rfl
      simp only [Reader.step, hfree, Bool.false_eq_true, if_false, hright, hcont]
      cases climb (features.binding_power op).right rest with
      | none => rfl
      | some read =>
        obtain ⟨r, rest'⟩ := read
        simp [erase, hbuild]

theorem bare_operator_turn (op : Operator) (rest : List Token) :
    Turn.fold features.binding_powers.any_operator.left min
        (parse_bare_infix_operator (fun min ts => tree features (climb min ts)) (erase features c)
          op features.binding_powers.any_operator.right (.operator op :: rest)) =
      settled_turn climb min c features (.inr (.inl (.bare op))) rest := by
  rw [settled_turn, Reader.step, if_neg (by simp [reader, checks_chain])]
  simp only [parse_bare_infix_operator, reader, right_power, rank, continues, List.tail_cons]
  cases climb features.binding_powers.any_operator.right rest with
  | none => rfl
  | some read => rfl

theorem construct_turn {ts : List Token} (hpeek : peek_operator_construct features ts = true) :
    Turn.fold features.binding_powers.string_concat.left min
        (parse_operator_construct features (fun min ts => tree features (climb min ts))
          (erase features c) features.binding_powers.string_concat.right ts) =
      reader_turn climb min c features (some (fold_of features.binding_powers.string_concat.left
        ((parse_operator_construct_head features ts).map fun (o, rest) => (.inl o, rest)) ts)) := by
  unfold parse_operator_construct
  cases hhead : parse_operator_construct_head features ts with
  | none => rfl
  | some read =>
    obtain ⟨o, rest⟩ := read
    obtain ⟨-, schema, op, rfl⟩ := parse_operator_construct_head_tokens hpeek hhead
    rw [Option.map_some, fold_of, reader_turn_inf, settled_turn, Reader.step,
      if_neg (by simp [reader, checks_chain])]
    simp only [reader, right_power, rank, continues]
    cases climb features.binding_powers.string_concat.right rest with
    | none => rfl
    | some read => rfl

/-- A turn on an operator that stands between two operands, or on none. -/
theorem operator_turn (hregular : Regular features) (op : Operator) (rest : List Token) :
    infix_turn features (fun min ts => tree features (climb min ts)) min (erase features c)
        c.isGroup (.operator op :: rest) =
      reader_turn climb min c features
        (( symbolic_infix features op).map fun o => fold_infix_of features o rest) := by
  have hconstruct : peek_operator_construct features (.operator op :: rest) = false := by
    simp [peek_operator_construct, peek_is_keyword, peek_nth_is_keyword]
  simp only [infix_turn, hconstruct, Bool.false_eq_true, if_false, peek_bare_infix_operator,
    symbolic_infix]
  by_cases hbare : (features.operator_syntax.custom_operators && is_bare_operator op) = true
  · rw [if_pos hbare, if_pos hbare]
    exact bare_operator_turn climb min c op rest
  · rw [if_neg hbare, if_neg hbare]
    simp only [peek_infix_operator]
    cases hmeans : infix_operator features op with
    | none => rfl
    | some means =>
      exact fold_infix_turn climb min c hregular (o := .symbol op means) _ rest rfl

/-- An operator that may be postfix, where the dialect has such operators. -/
theorem postfix_symbol_turn (hregular : Regular features) {op : Operator} (rest : List Token)
    (hpost_text : features.operator_syntax.postfix_operators = true)
    (hop : is_postfix_symbolic_operator op = true) :
    symbolic_turn features (fun min ts => tree features (climb min ts)) min (erase features c)
        c.isGroup (.operator op :: rest) =
      reader_turn climb min c features
        (some (.either ( symbolic_infix features op) (.symbol op), rest)) := by
  unfold symbolic_turn peek_postfix_symbolic_operator
  rw [follows_eq, hpost_text, Bool.true_and]
  cases hfollows : (reader features).follows climb rest with
  | true =>
    have hquantifier := not_quantified_of_follows climb hregular hpost_text hfollows
    simp only [hop, Bool.not_true, Bool.and_false, Bool.false_eq_true, if_false, ite_self]
    rw [operator_turn climb min c hregular]
    have hfold : ∀ o, fold_infix_of features o rest = (.inf o, rest) := by
      intro o
      rw [fold_infix_of, hquantifier, Bool.and_false]
      rfl
    unfold reader_turn
    cases hmeans : symbolic_infix features op with
    | none => simp [Reader.settle, hfollows]
    | some o => simp [Reader.settle, hfollows, hfold]
  | false =>
    simp only [hop, Bool.not_false, Bool.and_true, if_true]
    have hsettled : reader_turn climb min c features
        (some (.either ( symbolic_infix features op) (.symbol op), rest)) =
          Turn.fold features.binding_powers.any_operator.left min
            (some (.PostfixOperator (erase features c) op, rest)) := by
      unfold reader_turn
      simp only [Reader.settle, hfollows, cond_false]
      rfl
    rw [hsettled, Turn.fold]
    by_cases hmin : min ≤ features.binding_powers.any_operator.left
    · rw [if_pos (by simpa using hmin), if_neg (Nat.not_lt.mpr hmin)]
      rfl
    · have hweak : features.binding_powers.any_operator.left < min := Nat.lt_of_not_le hmin
      rw [if_neg (by simpa using hmin), if_pos hweak]
      have hconstruct : peek_operator_construct features (.operator op :: rest) = false := by
        simp [peek_operator_construct, peek_is_keyword, peek_nth_is_keyword]
      simp only [infix_turn, hconstruct, Bool.false_eq_true, if_false]
      split
      · rw [Turn.fold, if_pos hweak]
      · split
        · rename_i means hmeans
          have hleft : (features.binding_power means).left ≤
              features.binding_powers.any_operator.left := by
            obtain ⟨o, ho, hmeans⟩ := Option.bind_eq_some_iff.mp hmeans
            obtain ⟨m, hm, rfl⟩ := Option.map_eq_some_iff.mp ho
            rw [← Option.some.inj hmeans]
            exact hregular.postfix_left_le hpost_text op m hop hm
          rw [Turn.fold, if_pos (Nat.lt_of_le_of_lt hleft hweak)]
        · rfl

theorem symbolic_turn_eq (hregular : Regular features) (ts : List Token) :
    symbolic_turn features (fun min ts => tree features (climb min ts)) min (erase features c)
        c.isGroup ts =
      reader_turn climb min c features (peek_symbolic features ts) := by
  -- only an operator can be postfix
  have hskip : (∀ op rest, ts = .operator op :: rest →
      ¬ (features.operator_syntax.postfix_operators && is_postfix_symbolic_operator op) = true) →
      symbolic_turn features (fun min ts => tree features (climb min ts)) min (erase features c)
          c.isGroup ts =
        infix_turn features (fun min ts => tree features (climb min ts)) min (erase features c)
          c.isGroup ts := by
    intro hplain
    unfold symbolic_turn peek_postfix_symbolic_operator
    split
    · rename_i op hfound
      split at hfound
      · rename_i hpost_text
        split at hfound
        · rename_i op' rest
          split at hfound
          · rename_i hop
            simp only [Bool.and_eq_true] at hpost_text hop
            exact absurd (by simp [hpost_text.1, hop.1]) (hplain op' rest rfl)
          · cases hfound
        · cases hfound
      · cases hfound
    · rfl
  match ts with
  | .operator op :: rest =>
    by_cases hop :
        (features.operator_syntax.postfix_operators && is_postfix_symbolic_operator op) = true
    · rw [peek_symbolic, if_pos hop]
      rw [Bool.and_eq_true] at hop
      exact postfix_symbol_turn climb min c hregular rest hop.1 hop.2
    · rw [hskip (by rintro _ _ ⟨rfl, rfl⟩; exact hop), operator_turn climb min c hregular,
        peek_symbolic, if_neg hop]
  | .keyword keyword :: rest =>
    rw [hskip (by intro _ _ h; cases h), peek_symbolic, infix_turn]
    by_cases hconstruct : peek_operator_construct features (.keyword keyword :: rest) = true
    · rw [if_pos hconstruct, if_pos hconstruct]
      exact construct_turn climb min c hconstruct
    · rw [if_neg hconstruct, if_neg hconstruct]
      simp only [peek_bare_infix_operator, peek_infix_operator]
      cases hmeans : keyword_operator features keyword with
      | none => rfl
      | some means =>
        exact fold_infix_turn climb min c hregular (o := .word keyword means) _ rest rfl
  | .word _ :: _ | .quoted_ident _ :: _ | .number _ :: _ | .string _ :: _ | .parameter _ :: _
  | .punctuation _ :: _ | [] =>
    rw [hskip (by intro _ _ h; cases h)]
    simp [infix_turn, peek_operator_construct, peek_is_keyword, peek_nth_is_keyword,
      peek_bare_infix_operator, peek_infix_operator, peek_symbolic, reader_turn]

theorem climb_turn_eq (hregular : Regular features) (ts : List Token) :
    climb_turn features (fun min ts => tree features (climb min ts)) min (erase features c)
        c.isGroup ts =
      reader_turn climb min c features (peek features ts) := by
  unfold climb_turn peek
  by_cases hlist : peek_unparenthesized_in_list features ts = true
  · rw [if_pos hlist, if_pos hlist, reader_turn_refused]
  rw [if_neg hlist, if_neg hlist]
  by_cases hpredicate : peek_starts_predicate features ts = true
  · rw [if_pos hpredicate, if_pos hpredicate]
    exact predicate_turn climb min c ts
  rw [if_neg hpredicate, if_neg hpredicate]
  cases hpost_text : peek_postfix_operator features ts with
  | none =>
    rw [Option.filter_none]
    exact symbolic_turn_eq climb min c hregular ts
  | some op =>
    by_cases hmin : min ≤ (op.binding_power features.binding_powers).left
    · rw [Option.filter_some, if_pos (by simpa using hmin)]
      exact postfix_turn climb min c hmin
    · rw [Option.filter_some, if_neg (by simpa using hmin)]
      have hbreak : symbolic_turn features (fun min ts => tree features (climb min ts)) min
          (erase features c) c.isGroup ts = some .break := by
        rw [symbolic_turn_eq climb min c hregular, peek_symbolic_of_postfix hpost_text]
        rfl
      change symbolic_turn features _ min _ _ ts = reader_turn climb min c features
        (some (fold_of (op.binding_power features.binding_powers).left
          (parse_postfix_head features op ts) ts))
      rw [hbreak]
      have hweak := Nat.lt_of_not_le hmin
      cases hhead : parse_postfix_head features op ts with
      | none => rw [fold_of, reader_turn_refused, Turn.fold, if_pos hweak]
      | some read =>
        obtain ⟨k, rest⟩ := read
        rw [(postfix_rank c hhead).1] at hweak
        rcases k with o | q
        · rw [fold_of, reader_turn_inf, settled_turn, Turn.fold]
          exact (if_pos hweak).symm
        · rw [fold_of, reader_turn_post, settled_turn, Turn.fold]
          exact (if_pos hweak).symm

/-! ## The loop -/

theorem step_isGroup {c d : Written} {op : Nat ⊕ (Infix ⊕ Postfix)} {ts rest : List Token}
    (h : (reader features).step climb c op ts = some (d, rest)) : d.isGroup = false := by
  rcases Reader.step_cases h with ⟨q, -, -, rfl, -⟩ | ⟨o, r, ts', -, -, -, ⟨-, rfl, -⟩ |
    ⟨ts'', r', -, -, rfl⟩⟩
  all_goals rfl

theorem climb_loop_eq (hregular : Regular features) (turns : Nat) (c : Written)
    (ts : List Token) :
    climb_loop features (fun min ts => tree features (climb min ts)) min turns
        (erase features c) c.isGroup ts =
      tree features ((reader features).loop climb min turns c ts) := by
  induction turns generalizing c ts with
  | zero => rfl
  | succ turns ih =>
    rw [climb_loop, climb_turn_eq climb min c hregular, Reader.loop]
    unfold reader_turn
    have hpeek : (reader features).peek ts = peek features ts := rfl
    rw [hpeek]
    cases peek features ts with
    | none => rfl
    | some found =>
      obtain ⟨f, rest⟩ := found
      simp only
      cases (reader features).settle climb f rest with
      | none => rfl
      | some op =>
        simp only [settled_turn, Turn.fold]
        by_cases hmin : (reader features).power op < min
        · rw [if_pos hmin, if_pos hmin]
          rfl
        · rw [if_neg hmin, if_neg hmin]
          cases hstep : (reader features).step climb c op rest with
          | none => rfl
          | some read =>
            obtain ⟨d, rest'⟩ := read
            have hloop := ih d rest'
            rw [step_isGroup climb hstep] at hloop
            exact hloop

end Turns

/-- The parser returns the tree of what the climb reads. -/
theorem parse_expr_bp_eq (hregular : Regular features) (depth min : Nat) (ts : List Token) :
    parse_expr_bp features depth min ts = tree features ((reader features).climb depth min ts) := by
  induction depth generalizing min ts with
  | zero => rfl
  | succ depth ih =>
    have hclimb : parse_expr_bp features depth =
        fun min ts => tree features ((reader features).climb depth min ts) :=
      funext fun min => funext fun ts => ih min ts
    rw [parse_expr_bp, hclimb, parse_prefix_eq, Reader.climb]
    cases (reader features).operand ((reader features).climb depth) ts with
    | none => rfl
    | some read =>
      obtain ⟨c, rest⟩ := read
      exact climb_loop_eq _ min hregular rest.length c rest

end squonk.parser.expr
