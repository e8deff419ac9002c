import Squonk.Parser.Expr.Reader

/-!
# The reader consumes what it reads

Whatever the reader finds at the front of the input is written with the tokens it passes over.
-/

open squonk.ast squonk.tokenizer squonk.dialect squonk.precedence climbing

namespace squonk.parser.expr

def op_tokens : Infix ⊕ Postfix → List Token := Sum.elim Infix.tokens Postfix.tokens

variable {features : FeatureSet}

/-! ## Keywords -/

theorem peek_nth_succ (n : Nat) (keyword : Keyword) (ts : List Token) :
    peek_nth_is_keyword (n + 1) keyword ts = peek_nth_is_keyword n keyword ts.tail := by
  cases ts <;> simp [peek_nth_is_keyword]

theorem peek_is_keyword_iff {keyword : Keyword} {ts : List Token} :
    peek_is_keyword keyword ts = true ↔ ts = .keyword keyword :: ts.tail := by
  cases ts with
  | nil => simp [peek_is_keyword, peek_nth_is_keyword]
  | cons t ts => simp [peek_is_keyword, peek_nth_is_keyword]

theorem peek_second_iff {first second : Keyword} {ts : List Token}
    (h : peek_is_keyword first ts = true) :
    peek_nth_is_keyword 1 second ts = true ↔
      ts = .keyword first :: .keyword second :: ts.drop 2 := by
  obtain ⟨t, ts, rfl⟩ : ∃ t rest, ts = t :: rest := ⟨_, _, peek_is_keyword_iff.mp h⟩
  have hfirst := peek_is_keyword_iff.mp h
  simp only [List.tail_cons, List.cons.injEq, and_true] at hfirst
  subst hfirst
  rw [peek_nth_succ]
  exact peek_is_keyword_iff.trans (by cases ts <;> simp)

theorem eat_keyword_eq (keyword : Keyword) (ts : List Token) :
    ts = keywords (bif (eat_keyword keyword ts).1 then [keyword] else []) ++
      (eat_keyword keyword ts).2 := by
  cases h : peek_is_keyword keyword ts with
  | false => simp [eat_keyword, h, keywords]
  | true =>
    have hts := peek_is_keyword_iff.mp h
    simp only [eat_keyword, h, if_true, cond_true, keywords, List.map_cons, List.map_nil,
      List.cons_append, List.nil_append]
    exact hts

@[simp] theorem keywords_nil : keywords [] = [] := rfl

@[simp] theorem keywords_cons (word : Keyword) (words : List Keyword) :
    keywords (word :: words) = .keyword word :: keywords words := rfl

theorem keywords_append (xs ys : List Keyword) :
    keywords (xs ++ ys) = keywords xs ++ keywords ys := List.map_append

theorem keywords_negation (negated : Bool) (words : List Keyword) :
    keywords (negation negated words) =
      keywords (bif negated then [.Not] else []) ++ keywords words := by
  cases negated <;> rfl

/-! ## Operands -/

theorem column_name_token {t : Token} {name : Ident} (h : column_name features t = some name) :
    t = ident_token name := by
  cases t with
  | word text =>
    simp only [column_name] at h
    split at h
    · cases h
    · rw [← Option.some.inj h]; rfl
  | quoted_ident text => rw [← Option.some.inj h]; rfl
  | keyword keyword =>
    simp only [column_name] at h
    split at h
    · cases h
    · rw [← Option.some.inj h]; rfl
  | _ => cases h

theorem parse_word_or_literal_ok {ts rest : List Token} {e : Expr}
    (h : parse_word_or_literal features ts = some (e, rest)) :
    ∃ a : Atom, e = a.build ∧ ts = a.token :: rest := by
  unfold parse_word_or_literal at h
  split at h
  · cases h
  · obtain ⟨rfl, rfl⟩ := Prod.mk.inj (Option.some.inj h)
    exact ⟨.literal .Null, rfl, rfl⟩
  · obtain ⟨rfl, rfl⟩ := Prod.mk.inj (Option.some.inj h)
    exact ⟨.literal (.Boolean true), rfl, rfl⟩
  · obtain ⟨rfl, rfl⟩ := Prod.mk.inj (Option.some.inj h)
    exact ⟨.literal (.Boolean false), rfl, rfl⟩
  · obtain ⟨rfl, rfl⟩ := Prod.mk.inj (Option.some.inj h)
    exact ⟨.literal (.Number _), rfl, rfl⟩
  · split at h
    · cases h
    · obtain ⟨rfl, rfl⟩ := Prod.mk.inj (Option.some.inj h)
      exact ⟨.literal (.String _), rfl, rfl⟩
  · split at h
    · cases h
    · obtain ⟨name, hname, heq⟩ := Option.map_eq_some_iff.mp h
      obtain ⟨rfl, rfl⟩ := Prod.mk.inj heq
      exact ⟨.column name, rfl, by rw [column_name_token hname]; rfl⟩

theorem atom_head_iff {ts rest : List Token} {a : Atom} :
    atom_head features ts = some (a, rest) ↔
      parse_word_or_literal features ts = some (a.build, rest) := by
  unfold atom_head
  constructor
  · intro h
    split at h
    · rename_i hparse
      obtain ⟨rfl, rfl⟩ := Prod.mk.inj (Option.some.inj h)
      exact hparse
    · rename_i hparse
      obtain ⟨rfl, rfl⟩ := Prod.mk.inj (Option.some.inj h)
      exact hparse
    · cases h
  · intro h
    rw [h]
    cases a <;> rfl

theorem prefix_operator_token {t : Token} {p : Prefix} (h : prefix_operator features t = some p) :
    t = p.token := by
  unfold prefix_operator at h
  split at h
  · rw [← Option.some.inj h]; rfl
  · rw [← Option.some.inj h]; rfl
  · rw [← Option.some.inj h]; rfl
  · rename_i op _ _
    split at h
    · rename_i htilde
      rw [Bool.and_eq_true, beq_iff_eq] at htilde
      rw [← Option.some.inj h, htilde.1]; rfl
    · split at h
      · rw [← Option.some.inj h]; rfl
      · cases h
  · cases h

/-! ## Predicates -/

theorem truth_value_ok {ts : List Token} {value : TruthValue}
    (h : truth_value ts.head? = some value) : ts = .keyword (truth_word value) :: ts.tail := by
  have hhead : ts.head? = some (.keyword (truth_word value)) := by
    unfold truth_value at h
    split at h
    all_goals cases h
    all_goals assumption
  exact (List.cons_head?_tail hhead).symm

theorem is_predicate_tokens {negated : Bool} {ts rest : List Token} {k : Infix ⊕ Postfix}
    (h : is_predicate features negated ts = some (k, rest)) :
    keywords (.Is :: negation negated []) ++ ts = op_tokens k ++ rest := by
  have hnegation : ∀ words, keywords (.Is :: negation negated words) =
      keywords (.Is :: negation negated []) ++ keywords words := by
    intro words
    cases negated <;> rfl
  unfold is_predicate at h
  split at h
  · rename_i hdistinct
    rw [Bool.and_eq_true] at hdistinct
    split at h
    · rename_i hfrom
      obtain ⟨rfl, rfl⟩ := Prod.mk.inj (Option.some.inj h)
      rw [op_tokens, Sum.elim_inl, Infix.tokens, hnegation [.Distinct, .From], List.append_assoc]
      exact congrArg _ ((peek_second_iff hdistinct.2).mp hfrom)
    · cases h
  · split at h
    · rename_i value htruth
      obtain ⟨rfl, rfl⟩ := Prod.mk.inj (Option.some.inj h)
      split at htruth
      · rw [op_tokens, Sum.elim_inr, Postfix.tokens, hnegation [truth_word value],
          List.append_assoc]
        exact congrArg _ (truth_value_ok htruth)
      · cases htruth
    · split at h
      · cases h
      · split at h
        · cases h
        · split at h
          · cases h
          · split at h
            · obtain ⟨rfl, rfl⟩ := Prod.mk.inj (Option.some.inj h)
              rfl
            · split at h
              · rename_i hnull
                obtain ⟨rfl, rfl⟩ := Prod.mk.inj (Option.some.inj h)
                rw [op_tokens, Sum.elim_inr, Postfix.tokens, hnegation [.Null],
                  List.append_assoc]
                exact congrArg _ (peek_is_keyword_iff.mp hnull)
              · cases h

theorem between_modifier_tokens (ts : List Token) :
    ts = keywords (between_modifier features ts).1.words ++ (between_modifier features ts).2 := by
  unfold between_modifier
  split
  · split
    · rename_i h
      exact peek_is_keyword_iff.mp h
    · split
      · rename_i h
        exact peek_is_keyword_iff.mp h
      · rfl
  · rfl

theorem like_predicate_eq {negated : Bool} {spelling : LikeSpelling} {ts rest : List Token}
    {k : Infix ⊕ Postfix} (h : like_predicate features negated spelling ts = some (k, rest)) :
    k = .inl (.like negated spelling) ∧ rest = ts := by
  unfold like_predicate at h
  split at h
  · cases h
  · obtain ⟨rfl, rfl⟩ := Prod.mk.inj (Option.some.inj h)
    exact ⟨rfl, rfl⟩

theorem keyword_operator_at_ok {ts : List Token} {keyword : Keyword} {op : BinaryOperator}
    (h : keyword_operator_at features 0 ts = some (keyword, op)) :
    ts = .keyword keyword :: ts.tail := by
  unfold keyword_operator_at at h
  split at h
  · rename_i hhead
    obtain ⟨op', -, heq⟩ := Option.map_eq_some_iff.mp h
    obtain ⟨rfl, -⟩ := Prod.mk.inj heq
    rw [← List.head?_eq_getElem?] at hhead
    exact (List.cons_head?_tail hhead).symm
  · cases h

/-- The ways to read the head of a predicate. -/
inductive PredicateHead (features : FeatureSet) (ts : List Token) :
    Infix ⊕ Postfix → List Token → Prop
  | is {k : Infix ⊕ Postfix} {rest : List Token} (his : peek_is_keyword .Is ts = true)
      (h : is_predicate features (eat_keyword .Not ts.tail).1 (eat_keyword .Not ts.tail).2 =
        some (k, rest)) : PredicateHead features ts k rest
  | isnull (hword : peek_is_keyword .Isnull ts = true) :
    PredicateHead features ts (.inr (.null_word false)) ts.tail
  | notnull (hword : peek_is_keyword .Notnull ts = true) :
    PredicateHead features ts (.inr (.null_word true)) ts.tail
  | not_null {behind : List Token} (heat : eat_keyword .Not ts = (true, behind))
      (hnull : peek_is_keyword .Null behind = true) :
    PredicateHead features ts (.inr .not_null) behind.tail
  | between {negated : Bool} {behind : List Token} (heat : eat_keyword .Not ts = (negated, behind))
      (hbetween : peek_is_keyword .Between behind = true) :
    PredicateHead features ts (.inl (.between negated (between_modifier features behind.tail).1))
      (between_modifier features behind.tail).2
  | like {negated : Bool} {behind : List Token} (heat : eat_keyword .Not ts = (negated, behind))
      (hlike : features.predicate_syntax.like = true) (hword : peek_is_keyword .Like behind = true) :
    PredicateHead features ts (.inl (.like negated .Like)) behind.tail
  | ilike {negated : Bool} {behind : List Token} (heat : eat_keyword .Not ts = (negated, behind))
      (hilike : features.predicate_syntax.ilike = true)
      (hword : peek_is_keyword .Ilike behind = true) :
    PredicateHead features ts (.inl (.like negated .ILike)) behind.tail
  | similar {negated : Bool} {behind : List Token} (heat : eat_keyword .Not ts = (negated, behind))
      (hsimilar : features.predicate_syntax.similar_to = true)
      (hword : peek_is_keyword .Similar behind = true)
      (hto : peek_nth_is_keyword 1 .To behind = true) :
    PredicateHead features ts (.inl (.like negated .SimilarTo)) (behind.drop 2)
  | negated_word {behind : List Token} {keyword : Keyword} {op : BinaryOperator}
      (heat : eat_keyword .Not ts = (true, behind))
      (hrange : range_predicate_at features 0 behind = false)
      (hop : keyword_operator_at features 0 behind = some (keyword, op)) :
    PredicateHead features ts (.inl (.negated_word keyword op)) behind.tail

theorem predicate_head_inv {ts rest : List Token} {k : Infix ⊕ Postfix}
    (h : parse_predicate_head features ts = some (k, rest)) :
    peek_overlaps features ts = false ∧ PredicateHead features ts k rest := by
  unfold parse_predicate_head at h
  split at h
  · cases h
  rename_i hoverlaps
  refine ⟨Bool.eq_false_of_not_eq_true hoverlaps, ?_⟩
  clear hoverlaps
  split at h
  · rename_i his
    exact .is his h
  split at h
  · rename_i hword
    rw [Bool.and_eq_true] at hword
    obtain ⟨rfl, rfl⟩ := Prod.mk.inj (Option.some.inj h)
    exact .isnull hword.2
  split at h
  · rename_i hword
    rw [Bool.and_eq_true] at hword
    obtain ⟨rfl, rfl⟩ := Prod.mk.inj (Option.some.inj h)
    exact .notnull hword.2
  generalize heat : eat_keyword .Not ts = eaten at h
  obtain ⟨negated, behind⟩ := eaten
  dsimp only at h
  split at h
  · rename_i hnull
    simp only [Bool.and_eq_true] at hnull
    obtain ⟨rfl, rfl⟩ := Prod.mk.inj (Option.some.inj h)
    exact .not_null (hnull.1.1 ▸ heat) hnull.2
  split at h
  · rename_i hbetween
    obtain ⟨rfl, rfl⟩ := Prod.mk.inj (Option.some.inj h)
    exact .between heat hbetween
  rename_i hbetween
  split at h
  · rename_i hlike
    rw [Bool.and_eq_true] at hlike
    obtain ⟨rfl, rfl⟩ := like_predicate_eq h
    exact .like heat hlike.1 hlike.2
  rename_i hlike
  split at h
  · rename_i hilike
    rw [Bool.and_eq_true] at hilike
    obtain ⟨rfl, rfl⟩ := like_predicate_eq h
    exact .ilike heat hilike.1 hilike.2
  rename_i hilike
  split at h
  · rename_i hsimilar
    rw [Bool.and_eq_true] at hsimilar
    split at h
    · rename_i hto
      obtain ⟨rfl, rfl⟩ := like_predicate_eq h
      exact .similar heat hsimilar.1 hsimilar.2 hto
    · cases h
  rename_i hsimilar
  split at h
  · rename_i keyword op hop
    obtain ⟨rfl, rfl⟩ := Prod.mk.inj (Option.some.inj h)
    split at hop
    · rename_i hnegated
      refine .negated_word (hnegated ▸ heat) ?_ hop
      have hin : peek_nth_is_keyword 0 .In behind = false := by
        by_contra hin
        rw [Bool.not_eq_false] at hin
        rw [peek_is_keyword_iff.mp hin] at hop
        simp [keyword_operator_at, KeywordOperators.binary_operator] at hop
      rw [peek_is_keyword] at hbetween hlike hilike hsimilar
      rw [range_predicate_at, similar_to_at, hin, Bool.false_or, Bool.eq_false_of_not_eq_true hbetween,
        Bool.false_or, Bool.eq_false_of_not_eq_true hlike, Bool.false_or,
        Bool.eq_false_of_not_eq_true hilike, Bool.false_or, ← Bool.and_assoc,
        Bool.eq_false_of_not_eq_true hsimilar, Bool.false_and]
    · cases hop
  · cases h

theorem negation_tokens {ts behind rest : List Token} {negated : Bool} (words : List Keyword)
    (heat : eat_keyword .Not ts = (negated, behind)) (hwords : behind = keywords words ++ rest) :
    ts = keywords (negation negated words) ++ rest := by
  have hnot := eat_keyword_eq .Not ts
  rw [heat, hwords] at hnot
  rw [hnot, keywords_negation, List.append_assoc]

theorem parse_predicate_head_tokens {ts rest : List Token} {k : Infix ⊕ Postfix}
    (h : parse_predicate_head features ts = some (k, rest)) : ts = op_tokens k ++ rest := by
  cases (predicate_head_inv h).2 with
  | is his h =>
    rw [← is_predicate_tokens h]
    refine (peek_is_keyword_iff.mp his).trans ?_
    rw [keywords_cons, keywords_negation, keywords_nil, List.append_nil, List.cons_append]
    exact congrArg _ (eat_keyword_eq .Not ts.tail)
  | isnull hword => exact peek_is_keyword_iff.mp hword
  | notnull hword => exact peek_is_keyword_iff.mp hword
  | not_null heat hnull => exact negation_tokens [.Null] heat (peek_is_keyword_iff.mp hnull)
  | between heat hbetween =>
    refine negation_tokens _ heat ?_
    rw [keywords_cons, List.cons_append, ← between_modifier_tokens]
    exact peek_is_keyword_iff.mp hbetween
  | like heat _ hword => exact negation_tokens _ heat (peek_is_keyword_iff.mp hword)
  | ilike heat _ hword => exact negation_tokens _ heat (peek_is_keyword_iff.mp hword)
  | similar heat _ hword hto => exact negation_tokens _ heat ((peek_second_iff hword).mp hto)
  | @negated_word behind keyword _ heat _ hop =>
    exact negation_tokens [keyword] heat (keyword_operator_at_ok hop)

/-! ## Other operators -/

theorem parse_postfix_head_tokens {ts rest : List Token} {op : PostfixOp} {k : Infix ⊕ Postfix}
    (hpeek : peek_postfix_operator features ts = some op)
    (h : parse_postfix_head features op ts = some (k, rest)) : ts = op_tokens k ++ rest := by
  unfold peek_postfix_operator at hpeek
  split at hpeek
  · split at hpeek
    all_goals cases hpeek
    cases h
  · split at hpeek
    all_goals cases hpeek
    cases h
  · split at hpeek
    all_goals cases hpeek
    cases h
  · split at hpeek
    · cases hpeek
      cases h
    · split at hpeek
      all_goals cases hpeek
      cases h
  · split at hpeek
    · rename_i hcollate
      cases hpeek
      simp only [Bool.and_eq_true] at hcollate
      simp only [parse_postfix_head] at h
      split at h
      · cases h
      · obtain ⟨name, hname, heq⟩ := Option.map_eq_some_iff.mp h
        obtain ⟨rfl, rfl⟩ := Prod.mk.inj heq
        obtain ⟨t, ht, hname⟩ := Option.bind_eq_some_iff.mp hname
        have hts := peek_is_keyword_iff.mp hcollate.1.2
        rw [hts] at ht ⊢
        rw [List.getElem?_cons_succ, ← List.head?_eq_getElem?] at ht
        rw [← List.cons_head?_tail ht, column_name_token hname]
        rfl
    · split at hpeek
      · rename_i hat
        cases hpeek
        simp only [Bool.and_eq_true] at hat
        obtain ⟨rfl, rfl⟩ := Prod.mk.inj (Option.some.inj h)
        obtain ⟨behind, rfl⟩ : ∃ behind, ts = .keyword .At :: .keyword .Time :: behind :=
          ⟨_, (peek_second_iff hat.1.1.2).mp hat.1.2⟩
        have hzone := hat.2
        rw [peek_nth_succ, peek_nth_succ] at hzone
        have hbehind : behind = .keyword .Zone :: behind.tail := peek_is_keyword_iff.mp hzone
        rw [hbehind]
        rfl
      · cases hpeek

theorem operator_schema_tokens (ts : List Token) :
    ts = (operator_schema features ts).1.flatMap
        (fun name => [ident_token name, .punctuation .Dot]) ++ (operator_schema features ts).2 := by
  induction ts using operator_schema.induct features with
  | case1 t ts name hname schema rest heq ih =>
    rw [operator_schema]
    simp only [hname, heq] at ih ⊢
    rw [List.flatMap_cons, column_name_token hname, List.append_assoc, ← ih]
    rfl
  | case2 t ts hname =>
    rw [operator_schema]
    simp [hname]
  | case3 ts hother => 
    rw [operator_schema]
    · rfl
    · exact hother

theorem operator_symbol_tokens (ts : List Token) :
    ts = (operator_symbol ts).1.map .operator ++ (operator_symbol ts).2 := by
  induction ts using operator_symbol.induct with
  | case1 op ts ops rest heq ih =>
    rw [operator_symbol]
    simp only [heq] at ih ⊢
    rw [List.map_cons, List.cons_append, ← ih]
  | case2 ts hother =>
    rw [operator_symbol]
    · rfl
    · exact hother

theorem parse_operator_construct_head_tokens {ts rest : List Token} {o : Infix}
    (hpeek : peek_operator_construct features ts = true)
    (h : parse_operator_construct_head features ts = some (o, rest)) :
    ts = o.tokens ++ rest ∧ ∃ schema op, o = .construct schema op := by
  simp only [peek_operator_construct, Bool.and_eq_true] at hpeek
  have hts := peek_is_keyword_iff.mp hpeek.1.2
  have hopen := hpeek.2
  rw [hts] at h hopen ⊢
  obtain ⟨t, behind, htail⟩ : ∃ t behind, ts.tail = t :: behind := by
    cases htail : ts.tail with
    | nil => simp [peek_nth_is_punct, htail] at hopen
    | cons t behind => exact ⟨t, behind, rfl⟩
  rw [htail] at h hopen ⊢
  simp only [peek_nth_is_punct, List.getElem?_cons_succ, List.getElem?_cons_zero, beq_iff_eq,
    Option.some.injEq] at hopen
  subst hopen
  unfold parse_operator_construct_head at h
  have hschema := @operator_schema_tokens features behind
  revert h hschema
  rw [List.drop_succ_cons, List.drop_succ_cons, List.drop_zero]
  generalize operator_schema features behind = read
  obtain ⟨schema, symbols⟩ := read
  intro h hschema
  have hsymbols := operator_symbol_tokens symbols
  dsimp only at h
  split at h
  · rename_i op ops rest' heq
    obtain ⟨rfl, rfl⟩ := Prod.mk.inj (Option.some.inj h)
    rw [heq] at hsymbols
    refine ⟨?_, _, _, rfl⟩
    rw [hschema, hsymbols]
    simp [Infix.tokens]
  · cases h

/-! ## The reader -/

/-- The tokens in front of `rest` are those of the operator that was found. -/
def Passes (ts : List Token) (rest : List Token) : Fold Infix Postfix → Prop
  | .inf o => ts = o.tokens ++ rest
  | .post q => ts = q.tokens ++ rest
  | .either o q => ts = q.tokens ++ rest ∧ ∀ i ∈ o, ts = i.tokens ++ rest
  | .refused _ => True

theorem passes_fold_of {ts : List Token} {left : Nat} {read : Option ((Infix ⊕ Postfix) × List Token)}
    (h : ∀ k rest, read = some (k, rest) → ts = op_tokens k ++ rest) :
    Passes ts (fold_of left read ts).2 (fold_of left read ts).1 := by
  rcases read with _ | ⟨o | q, rest⟩
  · trivial
  · exact h _ _ rfl
  · exact h _ _ rfl

theorem passes_fold_infix_of {ts rest : List Token} {o : Infix} (h : ts = o.tokens ++ rest) :
    Passes ts (fold_infix_of features o rest).2 (fold_infix_of features o rest).1 := by
  unfold fold_infix_of
  split
  · trivial
  · exact h

theorem symbolic_infix_tokens {op : Operator} {o : Infix}
    (h : symbolic_infix features op = some o) : o.tokens = [.operator op] := by
  unfold symbolic_infix at h
  split at h
  · rw [← Option.some.inj h]; rfl
  · obtain ⟨means, -, rfl⟩ := Option.map_eq_some_iff.mp h
    rfl

theorem peek_passes {ts rest : List Token} {f : Fold Infix Postfix}
    (h : peek features ts = some (f, rest)) : Passes ts rest f := by
  have hfold : ∀ {found : Fold Infix Postfix × List Token}, found = (f, rest) →
      Passes ts found.2 found.1 → Passes ts rest f := by
    rintro found rfl hpasses
    exact hpasses
  unfold peek at h
  split at h
  · exact hfold (Option.some.inj h) trivial
  split at h
  · exact hfold (Option.some.inj h) (passes_fold_of fun k rest => parse_predicate_head_tokens)
  split at h
  · rename_i op hpost_text
    exact hfold (Option.some.inj h)
      (passes_fold_of fun k rest => parse_postfix_head_tokens hpost_text)
  unfold peek_symbolic at h
  split at h
  · rename_i op rest'
    split at h
    · refine hfold (Option.some.inj h) ⟨rfl, fun o ho => ?_⟩
      rw [symbolic_infix_tokens ho]
      rfl
    · obtain ⟨o, ho, heq⟩ := Option.map_eq_some_iff.mp h
      exact hfold heq (passes_fold_infix_of (by rw [symbolic_infix_tokens ho]; rfl))
  · rename_i keyword rest'
    split at h
    · rename_i hconstruct
      refine hfold (Option.some.inj h) (passes_fold_of fun k rest hread => ?_)
      obtain ⟨⟨o, rest''⟩, hhead, heq⟩ := Option.map_eq_some_iff.mp hread
      obtain ⟨rfl, rfl⟩ := Prod.mk.inj heq
      exact (parse_operator_construct_head_tokens hconstruct hhead).1
    · obtain ⟨means, -, heq⟩ := Option.map_eq_some_iff.mp h
      exact hfold heq (passes_fold_infix_of rfl)
  · cases h

theorem head_inv {ts rest : List Token} {front : Head Atom Prefix}
    (h : head features ts = some (front, rest)) :
    (front = .opening ∧ ts = .lparen :: rest) ∨ (∃ p, front = .pre p ∧ ts = p.token :: rest) ∨
      ∃ a, front = .atom a ∧ ts = a.token :: rest := by
  cases ts with
  | nil => cases h
  | cons t ts =>
    simp only [head] at h
    split at h
    · rename_i ht
      obtain ⟨rfl, rfl⟩ := Prod.mk.inj (Option.some.inj h)
      exact Or.inl ⟨rfl, by rw [ht]⟩
    split at h
    · rename_i p hp
      obtain ⟨rfl, rfl⟩ := Prod.mk.inj (Option.some.inj h)
      exact Or.inr (Or.inl ⟨p, rfl, by rw [prefix_operator_token hp]⟩)
    · obtain ⟨⟨a, rest'⟩, ha, heq⟩ := Option.map_eq_some_iff.mp h
      obtain ⟨rfl, rfl⟩ := Prod.mk.inj heq
      obtain ⟨b, hb, htoks⟩ := parse_word_or_literal_ok (atom_head_iff.mp ha)
      have hab : a = b := by
        cases a <;> cases b <;> simp [Atom.build] at hb ⊢ <;> exact hb
      exact Or.inr (Or.inr ⟨a, rfl, hab ▸ htoks⟩)

theorem infix_tokens_ne_nil (o : Infix) : o.tokens ≠ [] := by
  cases o with
  | between negated _ => cases negated <;> simp [Infix.tokens, negation]
  | like negated spelling => cases negated <;> cases spelling <;> simp [Infix.tokens, negation, like_words]
  | _ => simp [Infix.tokens]

theorem postfix_tokens_ne_nil (q : Postfix) : q.tokens ≠ [] := by
  cases q <;> simp [Postfix.tokens]

theorem peek_rparen (ts : List Token) : peek features (.rparen :: ts) = none := by
  simp [peek, peek_unparenthesized_in_list, peek_starts_predicate, peek_starts_range_predicate,
    peek_overlaps, range_predicate_at, similar_to_at, peek_is_keyword, peek_nth_is_keyword,
    peek_postfix_operator, peek_symbolic]

theorem peek_nil : peek features [] = none := by
  simp [peek, peek_unparenthesized_in_list, peek_starts_predicate, peek_starts_range_predicate,
    peek_overlaps, range_predicate_at, similar_to_at, peek_is_keyword, peek_nth_is_keyword,
    peek_postfix_operator, peek_symbolic]

theorem reader_faithful (features : FeatureSet) : (reader features).Faithful where
  head_atom h := by
    rcases head_inv h with ⟨heq, -⟩ | ⟨p, heq, -⟩ | ⟨a, heq, htoks⟩
    all_goals cases heq
    exact htoks
  head_opening h := by
    rcases head_inv h with ⟨-, htoks⟩ | ⟨p, heq, -⟩ | ⟨a, heq, -⟩
    · exact htoks
    all_goals cases heq
  head_pre h := by
    rcases head_inv h with ⟨heq, -⟩ | ⟨p, heq, htoks⟩ | ⟨a, heq, -⟩
    all_goals cases heq
    exact htoks
  peek_inf h := peek_passes h
  peek_post h := peek_passes h
  peek_either h := peek_passes h
  cont {o ts rest} h := by
    simp only [reader, continues] at h
    split at h
    · split at h
      · rename_i hand
        rw [← Option.some.inj (Option.some.inj h)]
        exact peek_is_keyword_iff.mp hand
      · cases h
    · split at h
      · rename_i hescape
        rw [← Option.some.inj (Option.some.inj h)]
        exact peek_is_keyword_iff.mp hescape
      · cases h
    · cases h
  infToks_ne_nil := infix_tokens_ne_nil
  postToks_ne_nil := postfix_tokens_ne_nil
  peek_nil := peek_nil
  peek_closing := peek_rparen
  head_opening_eq ts := rfl

end squonk.parser.expr
