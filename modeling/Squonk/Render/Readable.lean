import Squonk.Climbing.Taken
import Squonk.Parser.Expr.Faithful
import Squonk.Render.Written
import Squonk.Tokenizer.Spelling

/-!
# Trees that the parser builds

What is known of a tree of operators because the parser has built it: the dialect has each of
its operators, and each of its atoms is one token that the scanner reads.
-/

open squonk.ast squonk.tokenizer squonk.dialect squonk.precedence squonk.parser.expr climbing

namespace squonk.render

variable {features : FeatureSet}

/-- An atom that the parser reads from a token of some source. -/
def AdmitsAtom (features : FeatureSet) (a : Atom) : Prop :=
  (∃ ts rest, head features ts = some (.atom a, rest)) ∧ Scanned features a.token

/-- The dialect has the binary operator. -/
def Admits (features : FeatureSet) (op : BinaryOperator) : Prop :=
  match infix_of op with
  | .symbol token means =>
    symbolic_infix features token = some (.symbol token means) ∧ Scanned features (.operator token)
  | .word keyword means => keyword_operator features keyword = some means
  | .distinct _ => features.predicate_syntax.is_distinct_from = true
  | .equality _ => features.operator_syntax.is_general_equality = true
  | _ => False

/-- The dialect has every operator and every atom of the tree. -/
def Readable (features : FeatureSet) : Expr → Prop
  | .Column name => AdmitsAtom features (.column name)
  | .Literal value => AdmitsAtom features (.literal value)
  | .BinaryOp l op r =>
    Admits features op ∧
      (op = .JsonGet → features.operator_syntax.lambda_expressions = true →
        ∀ name, l ≠ .Column name) ∧
      Readable features l ∧ Readable features r
  | .UnaryOp op e =>
    op ≠ .Prior ∧ (op = .BitwiseNot → features.operator_syntax.bitwise_operators = true) ∧
      Readable features e
  | _ => False

/-! ## What the lookahead knows of an operator -/

/-- What is known of an infix operator that the lookahead has found. -/
def Known (features : FeatureSet) : Infix → Prop
  | .symbol op means => symbolic_infix features op = some (.symbol op means)
  | .word keyword means => keyword_operator features keyword = some means
  | .distinct _ => features.predicate_syntax.is_distinct_from = true
  | .equality _ => features.operator_syntax.is_general_equality = true
  | .negated_word keyword means => features.keyword_operators.binary_operator keyword = some means
  | _ => True

theorem known_of_symbolic {op : Operator} {o : Infix} (h : symbolic_infix features op = some o) :
    Known features o := by
  have hself := h
  unfold symbolic_infix at h
  split at h
  · rw [← Option.some.inj h]
    trivial
  · obtain ⟨means, -, rfl⟩ := Option.map_eq_some_iff.mp h
    exact hself

theorem known_of_is_predicate {negated : Bool} {ts rest : List Token} {o : Infix}
    (h : is_predicate features negated ts = some (.inl o, rest)) : Known features o := by
  unfold is_predicate at h
  split at h
  · rename_i hdistinct
    rw [Bool.and_eq_true] at hdistinct
    split at h
    · obtain ⟨heq, -⟩ := Prod.mk.inj (Option.some.inj h)
      rw [← Sum.inl.inj heq]
      exact hdistinct.1
    · cases h
  split at h
  · cases h
  split at h
  · cases h
  split at h
  · cases h
  split at h
  · cases h
  split at h
  · rename_i hequality
    rw [Bool.and_eq_true] at hequality
    obtain ⟨heq, -⟩ := Prod.mk.inj (Option.some.inj h)
    rw [← Sum.inl.inj heq]
    exact hequality.1
  split at h
  · cases h
  · cases h

theorem known_of_predicate {ts rest : List Token} {o : Infix}
    (h : parse_predicate_head features ts = some (.inl o, rest)) : Known features o := by
  cases (predicate_head_inv h).2 with
  | is _ h => exact known_of_is_predicate h
  | between => trivial
  | like => trivial
  | ilike => trivial
  | similar => trivial
  | negated_word _ _ hop =>
    unfold keyword_operator_at at hop
    split at hop
    · obtain ⟨means, hmeans, heq⟩ := Option.map_eq_some_iff.mp hop
      obtain ⟨rfl, rfl⟩ := Prod.mk.inj heq
      exact hmeans
    · cases hop

theorem known_of_fold_of {left : Nat} {read : Option ((Infix ⊕ Postfix) × List Token)}
    {ts rest : List Token} {o : Infix} (hread : ∀ rest, read = some (.inl o, rest) → Known features o)
    (h : fold_of left read ts = (.inf o, rest)) : Known features o := by
  rcases read with _ | ⟨o' | q, rest'⟩
  · cases h
  · obtain ⟨heq, rfl⟩ := Prod.mk.inj h
    cases heq
    exact hread _ rfl
  · cases h

theorem known_of_fold_infix_of {o o' : Infix} {ts rest : List Token} (ho : Known features o')
    (h : fold_infix_of features o' ts = (.inf o, rest)) : Known features o := by
  unfold fold_infix_of at h
  split at h
  · cases h
  · obtain ⟨heq, -⟩ := Prod.mk.inj h
    cases heq
    exact ho

/-- What the lookahead settles on is the operator `o`, at once or if an operand follows. -/
def Finds (found : Option (Fold Infix Postfix × List Token)) (o : Infix) : Prop :=
  ∃ rest, found = some (.inf o, rest) ∨ ∃ q, found = some (.either (some o) q, rest)

theorem known_of_finds_fold {left : Nat} {read : Option ((Infix ⊕ Postfix) × List Token)}
    {ts : List Token} {o : Infix} (hread : ∀ rest, read = some (.inl o, rest) → Known features o)
    (h : Finds (some (fold_of left read ts)) o) : Known features o := by
  obtain ⟨rest, h | ⟨q, h⟩⟩ := h
  · exact known_of_fold_of hread (Option.some.inj h)
  · rcases read with _ | ⟨o' | q', rest'⟩ <;> cases h

theorem known_of_finds_infix {found : Option Infix} {ts : List Token} {o : Infix}
    (hknown : ∀ o', found = some o' → Known features o')
    (h : Finds (found.map fun o' => fold_infix_of features o' ts) o) : Known features o := by
  obtain ⟨rest, h | ⟨q, h⟩⟩ := h
  · obtain ⟨o', ho', heq⟩ := Option.map_eq_some_iff.mp h
    exact known_of_fold_infix_of (hknown o' ho') heq
  · obtain ⟨o', -, heq⟩ := Option.map_eq_some_iff.mp h
    unfold fold_infix_of at heq
    split at heq <;> cases heq

theorem known_of_peek_symbolic {ts : List Token} {o : Infix}
    (h : Finds ( peek_symbolic features ts) o) : Known features o := by
  unfold peek_symbolic at h
  split at h
  · split at h
    · obtain ⟨rest, h | ⟨q, h⟩⟩ := h
      · cases (Prod.mk.inj (Option.some.inj h)).1
      · exact known_of_symbolic (Fold.either.inj (Prod.mk.inj (Option.some.inj h)).1).1
    · exact known_of_finds_infix (fun o' ho' => known_of_symbolic ho') h
  · rename_i keyword behind
    split at h
    · rename_i hpeek
      refine known_of_finds_fold (fun rest hread => ?_) h
      obtain ⟨⟨o', rest'⟩, hhead, heq⟩ := Option.map_eq_some_iff.mp hread
      obtain ⟨-, schema, op, rfl⟩ := parse_operator_construct_head_tokens hpeek hhead
      rw [← Sum.inl.inj (Prod.mk.inj heq).1]
      trivial
    · have hmap : (keyword_operator features keyword).map (fun means =>
          fold_infix_of features (.word keyword means) behind) =
          ((keyword_operator features keyword).map (Infix.word keyword)).map
            (fun o' => fold_infix_of features o' behind) := by
        rw [Option.map_map]
        rfl
      rw [hmap] at h
      refine known_of_finds_infix (fun o' ho' => ?_) h
      obtain ⟨means, hmeans, rfl⟩ := Option.map_eq_some_iff.mp ho'
      exact hmeans
  · obtain ⟨rest, h | ⟨q, h⟩⟩ := h <;> cases h

/-- An infix operator that the lookahead finds is one of the dialect. -/
theorem known_of_peek {ts : List Token} {o : Infix} (h : Finds (peek features ts) o) :
    Known features o := by
  unfold peek at h
  split at h
  · obtain ⟨rest, h | ⟨q, h⟩⟩ := h <;> cases h
  split at h
  · exact known_of_finds_fold (fun rest hread => known_of_predicate hread) h
  split at h
  · rename_i op _
    refine known_of_finds_fold (fun rest hread => ?_) h
    cases op with
    | Collate =>
      simp only [parse_postfix_head] at hread
      split at hread
      · cases hread
      · obtain ⟨name, -, heq⟩ := Option.map_eq_some_iff.mp hread
        cases heq
    | AtTimeZone =>
      obtain ⟨heq, -⟩ := Prod.mk.inj (Option.some.inj hread)
      rw [← Sum.inl.inj heq]
      trivial
    | _ => cases hread
  · exact known_of_peek_symbolic h

/-! ## The tree of what is read -/

/-- A symbol writes the operator it means, unless that is a word. -/
theorem infix_of_symbol {op : Operator} {means : BinaryOperator}
    (h : infix_operator features op = some means) :
    infix_of means = .symbol op means ∨ means = .And ∨ means = .Or := by
  unfold infix_operator at h
  cases op
  case Concat =>
    dsimp only at h
    rw [← Option.some.inj h]
    cases features.pipe_operator
    · exact Or.inl rfl
    · exact Or.inr (Or.inr rfl)
  case AmpAmp =>
    dsimp only at h
    cases hamp : features.double_ampersand with
    | Unsupported => rw [hamp] at h; cases h
    | LogicalAnd => rw [hamp] at h; exact Or.inr (Or.inl (Option.some.inj h).symm)
    | Overlaps => rw [hamp] at h; rw [← Option.some.inj h]; exact Or.inl rfl
  case Caret =>
    dsimp only at h
    cases hcaret : features.caret_operator with
    | Unsupported => rw [hcaret] at h; cases h
    | Exponent => rw [hcaret] at h; rw [← Option.some.inj h]; exact Or.inl rfl
    | BitwiseXor => rw [hcaret] at h; rw [← Option.some.inj h]; exact Or.inl rfl
  all_goals
    dsimp only at h
    first
      | (rw [← Option.some.inj h]; exact Or.inl rfl)
      | (split at h
         · rw [← Option.some.inj h]; exact Or.inl rfl
         · cases h)
      | cases h

theorem infix_of_word {keyword : Keyword} {means : BinaryOperator}
    (h : keyword_operator features keyword = some means) : infix_of means = .word keyword means := by
  unfold keyword_operator at h
  split at h
  · rw [← Option.some.inj h]
    rfl
  · rw [← Option.some.inj h]
    rfl
  · unfold KeywordOperators.binary_operator at h
    split at h
    all_goals first
      | (rw [← Option.some.inj h]; rfl)
      | cases h

theorem keyword_operator_of_words {keyword : Keyword} {means : BinaryOperator}
    (h : features.keyword_operators.binary_operator keyword = some means) :
    keyword_operator features keyword = some means := by
  unfold keyword_operator
  split
  · cases hwords : features.keyword_operators <;> rw [hwords] at h <;> cases h
  · cases hwords : features.keyword_operators <;> rw [hwords] at h <;> cases h
  · exact h

theorem infix_operator_of_symbolic {op : Operator} {means : BinaryOperator}
    (h : symbolic_infix features op = some (.symbol op means)) :
    infix_operator features op = some means := by
  unfold symbolic_infix at h
  split at h
  · cases h
  · obtain ⟨means', hmeans, heq⟩ := Option.map_eq_some_iff.mp h
    rwa [← (Infix.symbol.inj heq).2]

theorem admits_word {keyword : Keyword} {means : BinaryOperator}
    (h : keyword_operator features keyword = some means) : Admits features means := by
  unfold Admits
  rw [infix_of_word h]
  exact h

/-- The operator of a symbol or a word that is read is one of the dialect. -/
theorem admits_of_known {o : Infix} {means : BinaryOperator} (hmeans : o.means? = some means)
    (hknown : Known features o) (hscanned : ∀ t ∈ o.tokens, Scanned features t) :
    Admits features means := by
  cases o with
  | symbol op means' =>
    obtain rfl := Option.some.inj hmeans
    rcases infix_of_symbol (infix_operator_of_symbolic hknown) with heq | rfl | rfl
    · unfold Admits
      rw [heq]
      exact ⟨hknown, hscanned _ List.mem_cons_self⟩
    · exact rfl
    · exact rfl
  | word keyword means' =>
    obtain rfl := Option.some.inj hmeans
    exact admits_word hknown
  | _ => cases hmeans

theorem prefix_of_head {ts rest : List Token} {op : UnaryOperator}
    (h : head features ts = some (.pre (.unary op), rest)) :
    op ≠ .Prior ∧ (op = .BitwiseNot → features.operator_syntax.bitwise_operators = true) := by
  have hprefix : ∀ t, prefix_operator features t = some (.unary op) →
      op ≠ .Prior ∧ (op = .BitwiseNot → features.operator_syntax.bitwise_operators = true) := by
    intro t ht
    unfold prefix_operator at ht
    split at ht
    · cases ht
      exact ⟨by decide, fun h => by cases h⟩
    · cases ht
      exact ⟨by decide, fun h => by cases h⟩
    · cases ht
      exact ⟨by decide, fun h => by cases h⟩
    · split at ht
      · rename_i htilde
        rw [Bool.and_eq_true] at htilde
        cases ht
        exact ⟨by decide, fun _ => htilde.2⟩
      · split at ht <;> cases ht
    · cases ht
  cases ts with
  | nil => cases h
  | cons t ts =>
    rw [head] at h
    split at h
    · cases (Prod.mk.inj (Option.some.inj h)).1
    split at h
    · rename_i p hp
      have heq := (Prod.mk.inj (Option.some.inj h)).1
      rw [Head.pre.inj heq] at hp
      exact hprefix t hp
    · obtain ⟨read, -, heq⟩ := Option.map_eq_some_iff.mp h
      cases heq

/-- A tree of operators that an operator with a meaning builds has no lambda at its top. -/
theorem infix_expr_operators {l r : Expr} {grouped : Bool} {means : BinaryOperator}
    (h : Operators (infix_expr features l grouped means r)) :
    infix_expr features l grouped means r = .BinaryOp l means r ∧
      (means = .JsonGet → features.operator_syntax.lambda_expressions = true →
        ∀ name, l ≠ .Column name) := by
  by_cases hlambda : (means == .JsonGet && features.operator_syntax.lambda_expressions) = true
  · unfold infix_expr at h ⊢
    rw [if_pos hlambda] at h ⊢
    cases hparam : lambda_param l grouped with
    | some read => rw [hparam] at h; exact absurd h id
    | none =>
      refine ⟨rfl, ?_⟩
      rintro - - name rfl
      cases hparam
  · unfold infix_expr
    rw [if_neg hlambda]
    refine ⟨rfl, ?_⟩
    rintro rfl hon
    exact absurd (by rw [hon]; rfl) hlambda

/-- The tree of what a climb reads has operators and atoms of the dialect only. -/
theorem readable_of_taken {c : Written} (htaken : (reader features).Taken c)
    (hscanned : ∀ t ∈ c.tokens lexicon, Scanned features t)
    (hoperators : Operators (erase features c)) : Readable features (erase features c) := by
  induction c with
  | atom a =>
    have hatom : AdmitsAtom features a := ⟨htaken, hscanned _ List.mem_cons_self⟩
    cases a with
    | column name => exact hatom
    | literal value => exact hatom
  | group c ih =>
    exact ih htaken (fun t ht => hscanned t (List.mem_cons_of_mem _ (List.mem_append_left _ ht)))
      hoperators
  | pre p c ih =>
    cases p with
    | unary op =>
      obtain ⟨⟨ts, rest, hhead⟩, hc⟩ := htaken
      obtain ⟨hprior, htilde⟩ := prefix_of_head hhead
      exact ⟨hprior, htilde, ih hc (fun t ht => hscanned t (List.mem_cons_of_mem _ ht)) hoperators⟩
    | symbol op => exact absurd hoperators id
  | inf l o r ihl ihr =>
    obtain ⟨⟨⟨ts, rest, hpeek⟩, hblocked⟩, hl, hr⟩ := htaken
    have hknown : Known features o := known_of_peek ⟨rest, hpeek⟩
    have htokens : (Cst.inf l o r : Written).tokens lexicon =
        l.tokens lexicon ++ (o.tokens ++ r.tokens lexicon) := rfl
    rw [htokens] at hscanned
    have hscannedL := fun t ht => hscanned t (List.mem_append_left _ ht)
    have hscannedO := fun t ht => hscanned t (List.mem_append_right _ (List.mem_append_left _ ht))
    have hscannedR := fun t ht => hscanned t (List.mem_append_right _ (List.mem_append_right _ ht))
    have hmeans : ∀ means, o.means? = some means →
        erase features (.inf l o r) =
          infix_expr features (erase features l) l.isGroup means (erase features r) →
        Readable features (erase features (.inf l o r)) := by
      intro means hmeans heq
      rw [heq] at hoperators ⊢
      obtain ⟨hbinary, hlambda⟩ := infix_expr_operators hoperators
      rw [hbinary] at hoperators ⊢
      exact ⟨admits_of_known hmeans hknown hscannedO, hlambda, ihl hl hscannedL hoperators.1,
        ihr hr hscannedR hoperators.2⟩
    cases o with
    | symbol op means => exact hmeans means rfl rfl
    | word keyword means => exact hmeans means rfl rfl
    | distinct negated =>
      refine ⟨?_, ?_, ihl hl hscannedL hoperators.1, ihr hr hscannedR hoperators.2⟩
      · cases negated <;> exact hknown
      · intro heq
        cases negated <;> cases heq
    | equality negated =>
      refine ⟨?_, ?_, ihl hl hscannedL hoperators.1, ihr hr hscannedR hoperators.2⟩
      · cases negated <;> exact hknown
      · intro heq
        cases negated <;> cases heq
    | negated_word keyword means =>
      have hword := keyword_operator_of_words hknown
      refine ⟨by decide, (fun heq => by cases heq), admits_word hword, ?_,
        ihl hl hscannedL hoperators.1, ihr hr hscannedR hoperators.2⟩
      rintro rfl
      cases infix_of_word hword
    | _ => exact absurd hoperators id
  | mix l o m r =>
    obtain ⟨-, ⟨ts, rest, hcont⟩, -⟩ := htaken
    cases o with
    | between => exact absurd hoperators id
    | like => exact absurd hoperators id
    | _ => cases hcont
  | post l q => cases q <;> exact absurd hoperators id

end squonk.render
