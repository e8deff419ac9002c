import Mathlib
import Squonk.Parser.Restrict.Spine

/-!
# Restricted expressions stay restricted

Every turn of the climb keeps the promises of an expression that was read under the flag, and with
it every production. So the tree of `b_expr` and of `bit_expr` has no operator outside of its
delimiters that they do not have, and everything between its delimiters is read without the
restriction, where nothing stands among the tokens that is read under the flag of its surroundings.
-/

open squonk.ast squonk.tokenizer squonk.dialect squonk.precedence
open squonk.parser.method (Mode Method Entry)
open squonk.parser.expr (Prefix PostfixOp prefix_operator)
open squonk.parser.expr.chain (Node Binary Suffix Quantifier)

namespace squonk.parser.restrict

/-! ## Operators at the front -/

section Heads

variable {features : FeatureSet}

theorem peek_infix_operator_restrained {ts : List Token} {o : expr.Infix} {op : BinaryOperator}
    (h : peek_infix_operator features ts = some (o, op)) :
    Binary.restrained (.known o) = !(op == .And || op == .Or) := by
  obtain ⟨o', -, hmeans⟩ := Option.bind_eq_some_iff.mp h
  obtain ⟨op', hop', heq⟩ := Option.map_eq_some_iff.mp hmeans
  obtain ⟨rfl, rfl⟩ := Prod.mk.inj heq
  cases o' with
  | symbol symbol means =>
    cases hop'
    rfl
  | word keyword means =>
    cases hop'
    rfl
  | _ => cases hop'

theorem peek_operator_construct_restrained {ts : List Token} {o : expr.Infix} {width : Nat}
    (h : peek_operator_construct_head features ts = some (o, width)) :
    Binary.restrained (.known o) = true := by
  obtain ⟨⟨o', rest⟩, hhead, heq⟩ := Option.map_eq_some_iff.mp h
  obtain ⟨rfl, -⟩ := Prod.mk.inj heq
  unfold expr.parse_operator_construct_head at hhead
  dsimp only at hhead
  split at hhead
  · cases hhead
    rfl
  · cases hhead

theorem is_predicate_distinct {negated : Bool} {ts rest : List Token}
    {k : expr.Infix ⊕ expr.Postfix}
    (h : expr.is_predicate features negated (.keyword .Distinct :: ts) = some (k, rest)) :
    k = .inl (.distinct negated) ∨ k = .inl (.equality negated) := by
  have hdistinct : expr.peek_is_keyword .Distinct (.keyword .Distinct :: ts) = true := rfl
  have htruth : expr.truth_value (.keyword .Distinct :: ts : List Token).head? = none := rfl
  have hjson : expr.peek_is_keyword .Json (.keyword .Distinct :: ts) = false := rfl
  have hdocument : expr.peek_is_keyword .Document (.keyword .Distinct :: ts) = false := rfl
  have hnormalized : expr.peek_normalized (.keyword .Distinct :: ts) = false := rfl
  have hnull : expr.peek_is_keyword .Null (.keyword .Distinct :: ts) = false := rfl
  unfold expr.is_predicate at h
  rw [hdistinct, htruth, hjson, hdocument, hnormalized, hnull] at h
  simp only [Bool.and_true, Bool.and_false, ite_self, Bool.false_eq_true, if_false,
    Bool.not_false] at h
  split at h
  · split at h
    · cases h
      exact .inl rfl
    · cases h
  · split at h
    · cases h
      exact .inr rfl
    · cases h

theorem is_head_distinct (negated : Bool) (ts : List Token) :
    expr.chain.parse_is_head features negated (.keyword .Distinct :: ts) =
      (expr.is_predicate features negated (.keyword .Distinct :: ts)).map fun (k, rest) =>
        (expr.chain.known k, rest) := by
  have hjson : expr.peek_is_keyword .Json (.keyword .Distinct :: ts) = false := rfl
  have hdocument : expr.peek_is_keyword .Document (.keyword .Distinct :: ts) = false := rfl
  have hnormalized : expr.peek_normalized (.keyword .Distinct :: ts) = false := rfl
  rw [expr.chain.parse_is_head, hjson, hdocument, hnormalized, Bool.and_false, Bool.and_false,
    Bool.and_false]
  rfl

/-- The one predicate of `b_expr` is an operator of it. -/
theorem predicate_form_restrained {ts : List Token}
    (h : expr.chain.peek_starts_is_distinct_predicate ts = true) :
    (∃ o width, predicate_form features ts = .operator (.inl o) width ∧
      Binary.restrained o = true) ∨ predicate_form features ts = .unknown := by
  obtain ⟨negated, rest, hts, hhead⟩ : ∃ negated rest, (∃ ts', ts = .keyword .Is :: ts') ∧
      expr.chain.parse_predicate_head features ts =
        expr.chain.parse_is_head features negated (.keyword .Distinct :: rest) := by
    rcases ts with _ | ⟨t, _ | ⟨u, ts⟩⟩
    · cases h
    · simp [expr.chain.peek_starts_is_distinct_predicate, expr.peek_nth_is_keyword] at h
    · simp only [expr.chain.peek_starts_is_distinct_predicate, expr.peek_is_keyword,
        expr.peek_nth_is_keyword, Bool.and_eq_true, Bool.or_eq_true, List.getElem?_cons_zero,
        List.getElem?_cons_succ, beq_iff_eq, Option.some.injEq] at h
      obtain ⟨rfl, rfl | ⟨rfl, hdistinct⟩⟩ := h
      · exact ⟨false, ts, ⟨_, rfl⟩, rfl⟩
      · obtain ⟨rest, rfl⟩ : ∃ rest, ts = .keyword .Distinct :: rest := by
          cases ts with
          | nil => cases hdistinct
          | cons v rest =>
            cases hdistinct
            exact ⟨rest, rfl⟩
        exact ⟨true, rest, ⟨_, rfl⟩, rfl⟩
  obtain ⟨ts', rfl⟩ := hts
  have hoverlaps : expr.peek_overlaps features (.keyword .Is :: ts') = false := Bool.and_false _
  have hin : expr.peek_is_keyword .In (expr.eat_keyword .Not (.keyword .Is :: ts')).2 = false := rfl
  rw [predicate_form, hoverlaps, hin, hhead, is_head_distinct]
  cases hpredicate : expr.is_predicate features negated (.keyword .Distinct :: rest) with
  | none => exact .inr rfl
  | some found =>
    obtain ⟨k, behind⟩ := found
    obtain rfl | rfl := is_predicate_distinct hpredicate
    · exact .inl ⟨_, _, rfl, rfl⟩
    · exact .inl ⟨_, _, rfl, rfl⟩

end Heads

/-! ## Operators -/

theorem Kept.infix {restricted : Bool} {l r : Expr} {op : Binary} (hl : Kept restricted l)
    (hop : restricted = true → Binary.restrained op = true) (hr : Kept restricted r) :
    Kept restricted (.Infix l op r) := by
  refine ⟨.Infix op hl.1 hr.1, fun h => ?_⟩
  show (Binary.restrained op && l.spine && r.spine) = true
  rw [hop h, hl.2 h, hr.2 h]
  rfl

theorem Kept.postfix {restricted : Bool} {e : Expr} {op : Suffix} {inside : List Nested}
    (he : Kept restricted e) (hop : restricted = true → Suffix.restrained op = true)
    (hinside : ∀ n ∈ inside, n.Lifted) : Kept restricted (.Postfix e op inside) := by
  refine ⟨.Postfix op he.1 hinside, fun h => ?_⟩
  show (Suffix.restrained op && e.spine) = true
  rw [hop h, he.2 h]
  rfl

/-- Without the restriction there is only one promise. -/
theorem Kept.unrestricted {restricted : Bool} {e : Expr} (hoff : restricted = false)
    (he : e.Lifted) : Kept restricted e :=
  ⟨he, fun h => absurd (hoff.symm.trans h) Bool.false_ne_true⟩

section Operators

variable {features : FeatureSet} {forms : FormSyntax} {source : List Token} {restricted : Bool}
variable {lhs : Expr}

theorem gives_subscript (hlhs : Kept restricted lhs) :
    Gives source restricted (parse_subscript forms lhs) (Kept restricted) := by
  have hbound : Gives source restricted parse_subscript_bound fun bound =>
      ∀ n ∈ bound, n.Lifted := by
    rw [parse_subscript_bound]
    apply Method.Returns.bind_any
    intro colon
    apply Method.Returns.bind_any
    intro closes
    split
    · exact fun n hn => by cases hn
    · apply gives_parse_expr.bind
      intro n hn m hm
      rw [← Option.some.inj hm]
      exact hn
  have hupper : Gives source restricted (parse_subscript_upper forms) fun bound =>
      ∀ n ∈ bound, n.Lifted := by
    rw [parse_subscript_upper]
    apply Method.Returns.bind_any
    intro minus
    apply Method.Returns.bind_any
    intro colon
    split
    · apply Method.Returns.bind_any
      intro _
      exact fun n hn => by cases hn
    · exact hbound
  have hbounds : Gives source restricted (parse_subscript_bounds forms) fun bounds =>
      ∀ n ∈ bounds, n.Lifted := by
    rw [parse_subscript_bounds]
    apply hbound.bind
    intro lower hlower
    apply Method.Returns.bind_any
    intro colon
    split
    · apply Method.Returns.bind_any
      intro dash
      apply hupper.bind
      intro upper hupper
      apply Method.Returns.bind_any
      intro second
      split
      · apply Method.Returns.bind_any
        intro _
        apply hbound.bind
        intro step hstep n hn
        simp only [List.mem_append, Option.mem_toList] at hn
        obtain (hn | hn) | hn := hn
        · exact hlower n hn
        · exact hupper n hn
        · exact hstep n hn
      · intro n hn
        simp only [List.mem_append, Option.mem_toList] at hn
        obtain hn | hn := hn
        · exact hlower n hn
        · exact hupper n hn
    · split
      · exact gives_unexpected _
      · intro n hn
        exact hlower n (Option.mem_toList.mp hn)
  rw [parse_subscript]
  apply Method.Returns.bind_any
  intro _
  apply hbounds.bind
  intro bounds hbounds
  apply Method.Returns.bind_any
  intro _
  exact hlhs.postfix (fun _ => rfl) hbounds

theorem gives_subscripts (turns : Nat) (hlhs : Kept restricted lhs) :
    Gives source restricted (parse_subscripts features forms turns lhs) (Kept restricted) := by
  induction turns generalizing lhs with
  | zero => exact hlhs
  | succ turns ih =>
    rw [parse_subscripts]
    apply Method.Returns.bind_any
    intro opens
    split
    · apply (gives_subscript hlhs).bind
      intro e he
      exact ih he
    · exact hlhs

theorem gives_in_expr_rhs :
    Gives source restricted (parse_in_expr_rhs features forms) (Kept restricted) := by
  rw [parse_in_expr_rhs]
  apply gives_parse_prefix.bind
  intro parsed hparsed
  apply Method.Returns.bind_any
  intro turns
  exact gives_subscripts turns hparsed

theorem gives_semi_structured_path (turns : Nat) :
    Gives source restricted (parse_semi_structured_path turns) fun path =>
      ∀ n ∈ path, n.Lifted := by
  induction turns with
  | zero => exact fun n hn => absurd hn List.not_mem_nil
  | succ turns ih =>
    rw [parse_semi_structured_path]
    apply Method.Returns.bind_any
    intro dot
    apply Method.Returns.bind_any
    intro label
    split
    · apply Method.Returns.bind_any
      intro _
      apply Method.Returns.bind_any
      intro _
      exact ih
    apply Method.Returns.bind_any
    intro bracket
    split
    · apply gives_parse_expr.bind
      intro index hindex
      apply Method.Returns.bind_any
      intro _
      apply ih.bind
      intro path hpath n hn
      obtain rfl | hn := List.mem_cons.mp hn
      · exact hindex
      · exact hpath n hn
    · exact fun n hn => absurd hn List.not_mem_nil

theorem gives_field_selection (hlhs : Kept restricted lhs) :
    Gives source restricted (parse_field_selection forms lhs) (Kept restricted) := by
  rw [parse_field_selection]
  apply Method.Returns.bind_any
  intro _
  apply Method.Returns.bind_any
  intro field
  apply Method.Returns.bind_any
  intro opens
  split
  · apply gives_function_args.bind
    intro args hargs
    exact ⟨.MethodCall field hlhs.1 hargs, hlhs.2⟩
  · exact hlhs.postfix (fun _ => rfl) fun n hn => absurd hn List.not_mem_nil

theorem gives_postfix {op : PostfixOp} (hlhs : Kept restricted lhs)
    (hop : restricted = true → op ≠ .AtTimeZone) :
    Gives source restricted ( parse_postfix features forms lhs op) (Kept restricted) := by
  have hnone : ∀ n ∈ ([] : List Nested), n.Lifted := fun n hn => absurd hn List.not_mem_nil
  cases op with
  | Typecast =>
    apply Method.Returns.bind_any
    intro _
    apply Method.Returns.bind_any
    intro data_type
    split
    · exact gives_unexpected _
    · apply Method.Returns.bind_any
      intro _
      exact hlhs.postfix (fun _ => rfl) hnone
  | Subscript => exact gives_subscript hlhs
  | SemiStructuredAccess =>
    apply Method.Returns.bind_any
    intro _
    apply Method.Returns.bind_any
    intro _
    apply Method.Returns.bind_any
    intro turns
    apply (gives_semi_structured_path turns).bind
    intro path hpath
    exact hlhs.postfix (fun _ => rfl) hpath
  | Collate =>
    apply Method.Returns.bind_any
    intro _
    apply Method.Returns.bind_any
    intro collation
    split
    · exact gives_unexpected _
    · apply Method.Returns.bind_any
      intro _
      exact hlhs.postfix (fun _ => rfl) hnone
  | AtTimeZone =>
    apply Method.Returns.bind_any
    intro _
    apply (gives_parse_expr_bp _).bind
    intro zone hzone
    exact hlhs.infix (fun h => absurd rfl (hop h)) hzone
  | FieldSelection => exact gives_field_selection hlhs
  | FieldWildcard =>
    apply Method.Returns.bind_any
    intro _
    exact hlhs.postfix (fun _ => rfl) hnone

theorem gives_between {o : Binary} (hoff : restricted = false) (hlhs : Kept restricted lhs) :
    Gives source restricted (parse_between features lhs o) (Kept restricted) := by
  rw [parse_between]
  apply (gives_parse_expr_bp _).bind
  intro low hlow
  apply Method.Returns.bind_any
  intro _
  apply (gives_parse_expr_bp _).bind
  intro high hhigh
  exact Kept.unrestricted hoff (.Mixfix o hlhs.1 hlow.1 hhigh.1)

theorem gives_like {o : Binary} (hoff : restricted = false) (hlhs : Kept restricted lhs) :
    Gives source restricted (parse_like features lhs o) (Kept restricted) := by
  rw [parse_like]
  apply (gives_parse_expr_bp _).bind
  intro pattern hpattern
  apply Method.Returns.bind_any
  intro escapes
  split
  · apply (gives_parse_expr_bp _).bind
    intro escape hescape
    exact Kept.unrestricted hoff (.Mixfix o hlhs.1 hpattern.1 hescape.1)
  · exact Kept.unrestricted hoff (.Infix o hlhs.1 hpattern.1)

theorem gives_like_quantified {o : Binary} (hoff : restricted = false)
    (hlhs : Kept restricted lhs) :
    Gives source restricted (parse_like_quantified lhs o) (Kept restricted) := by
  rw [parse_like_quantified]
  apply Method.Returns.bind_any
  intro _
  apply gives_parse_expr.bind
  intro pattern hpattern
  apply Method.Returns.bind_any
  intro _
  exact Kept.unrestricted hoff (.LikeQuantified o hlhs.1 hpattern)

theorem gives_overlaps (hoff : restricted = false) (hlhs : Kept restricted lhs) (grouped : Bool) :
    Gives source restricted (parse_overlaps features lhs grouped) (Kept restricted) := by
  rw [parse_overlaps]
  apply Method.Returns.bind_any
  intro _
  apply Method.Returns.bind_any
  intro _
  apply gives_parse_prefix.bind
  intro right hright
  apply Method.Returns.bind_any
  intro _
  exact Kept.unrestricted hoff (.Infix .overlaps hlhs.1 hright.1)

/-- Without the restriction where the operator is not one of `b_expr`. -/
theorem off_of_not_restrained {o : Binary}
    (hop : restricted = true → Binary.restrained o = true) (ho : Binary.restrained o = false) :
    restricted = false :=
  Bool.eq_false_iff.mpr fun h => absurd ((hop h).symm.trans ho) (by decide)

theorem gives_binary {o : Binary} (hlhs : Kept restricted lhs)
    (hop : restricted = true → Binary.restrained o = true) :
    Gives source restricted (parse_binary features forms lhs o) (Kept restricted) := by
  have hinfix (right_bp : Nat) : Gives source restricted (do
      let right ← parse_expr_bp right_bp
      return .Infix lhs o right) (Kept restricted) := by
    apply (gives_parse_expr_bp right_bp).bind
    intro right hright
    exact hlhs.infix hop hright
  cases o with
  | known o' =>
    cases o' with
    | between negated modifier => exact gives_between (off_of_not_restrained hop rfl) hlhs
    | like negated spelling => exact gives_like (off_of_not_restrained hop rfl) hlhs
    | _ => exact hinfix _
  | like_quantified negated spelling quantifier =>
    exact gives_like_quantified (off_of_not_restrained hop rfl) hlhs
  | in_expr negated =>
    apply gives_in_expr_rhs.bind
    intro right hright
    exact hlhs.infix hop hright
  | overlaps => exact gives_unexpected _
  | custom rank => exact gives_unexpected _

theorem gives_in (hoff : restricted = false) (hlhs : Kept restricted lhs) :
    Gives source restricted (parse_in features lhs) (Kept restricted) := by
  have hlist : Gives source restricted (parse_in_list features) fun list =>
      ∀ n ∈ list, n.Lifted := by
    rw [parse_in_list]
    split
    · exact gives_until _ gives_parse_expr
    · exact gives_comma_separated gives_parse_expr
  rw [parse_in]
  apply Method.Returns.bind_any
  intro negated
  apply Method.Returns.bind_any
  intro _
  apply Method.Returns.bind_any
  intro _
  apply (gives_query_behind_paren _ _).bind
  intro query hquery
  split
  · exact Kept.unrestricted hoff (.PostfixQuery _ hlhs.1 (hquery _ rfl))
  · apply hlist.bind
    intro list hlist
    apply Method.Returns.bind_any
    intro _
    exact Kept.unrestricted hoff (.Postfix _ hlhs.1 hlist)

/-- Under the restriction the form of a predicate is an operator of `b_expr`, or none that is
read. -/
theorem gives_predicate {form : PredicateForm} (hlhs : Kept restricted lhs) (grouped : Bool)
    (hform : restricted = true → (∃ o width, form = .operator (.inl o) width ∧
      Binary.restrained o = true) ∨ form = .unknown) :
    Gives source restricted (parse_predicate features forms lhs grouped form) (Kept restricted) := by
  have hoff (hwide : ¬ ((∃ o width, form = .operator (.inl o) width ∧
      Binary.restrained o = true) ∨ form = .unknown)) : restricted = false :=
    Bool.eq_false_iff.mpr fun h => hwide (hform h)
  cases form with
  | overlaps =>
    apply gives_overlaps (hoff ?_) hlhs
    rintro (⟨o, width, h, -⟩ | h) <;> cases h
  | membership =>
    apply gives_in (hoff ?_) hlhs
    rintro (⟨o, width, h, -⟩ | h) <;> cases h
  | operator op width =>
    cases op with
    | inl o =>
      apply Method.Returns.bind_any
      intro _
      apply gives_binary hlhs
      intro h
      obtain ⟨o', width', heq, ho⟩ | heq := hform h
      · cases heq
        exact ho
      · cases heq
    | inr q =>
      apply Method.Returns.bind_any
      intro _
      apply Kept.unrestricted (hoff ?_)
      · exact .Postfix q hlhs.1 fun n hn => absurd hn List.not_mem_nil
      · rintro (⟨o, width, h, -⟩ | h) <;> cases h
  | unknown => exact gives_unexpected _

theorem gives_quantified_operator_tail (hoff : restricted = false) (hlhs : Kept restricted lhs)
    (op : BinaryOperator) (quantifier : Quantifier) :
    Gives source restricted (parse_quantified_operator_tail features lhs op quantifier)
      (Kept restricted) := by
  rw [parse_quantified_operator_tail]
  apply Method.Returns.bind_any
  intro _
  apply (gives_query_behind_paren _ _).bind
  intro query hquery
  split
  · exact Kept.unrestricted hoff (.PostfixQuery _ hlhs.1 (hquery _ rfl))
  · apply Method.Returns.bind_any
    intro _
    apply gives_parse_expr.bind
    intro array harray
    apply Method.Returns.bind_any
    intro _
    apply Kept.unrestricted hoff (.Postfix _ hlhs.1 ?_)
    intro n hn
    rw [List.mem_singleton.mp hn]
    exact harray

theorem gives_peek_quantifier (lhs : Expr) (op : BinaryOperator) :
    Gives source restricted (peek_quantifier features lhs op) fun quantifier =>
      quantifier.isSome = true → restricted = false := by
  rw [peek_quantifier]
  apply gives_restrict_b_expr.bind
  rintro _ rfl
  split
  · next h =>
    apply (gives_look _).imp
    intro _ _ _
    simpa using (Bool.and_eq_true_iff.mp h).2
  · exact fun h => by cases h

theorem gives_fold_infix {o : expr.Infix} (hlhs : Kept restricted lhs) (op : BinaryOperator)
    (hop : restricted = true → Binary.restrained (.known o) = true) :
    Gives source restricted ( fold_infix features lhs o op) (Kept restricted) := by
  rw [ fold_infix]
  apply Method.Returns.bind_any
  intro _
  apply (gives_peek_quantifier lhs op).bind
  intro quantifier hquantifier
  split
  · apply Method.Returns.bind_any
    intro _
    exact gives_quantified_operator_tail (hquantifier rfl) hlhs op _
  · apply (gives_parse_expr_bp _).bind
    intro right hright
    exact hlhs.infix hop hright

/-! ## Turns -/

theorem gives_fold_at {left min_bp : Nat} {fold : ParseResult Expr}
    (hfold : Gives source restricted fold (Kept restricted)) :
    Gives source restricted (fold_at left min_bp fold) fun folded =>
      ∀ e ∈ folded, Kept restricted e := by
  rw [fold_at]
  split
  · exact fun e he => by cases he
  · exact gives_some hfold

theorem gives_infix_turn {min_bp : Nat} (hlhs : Kept restricted lhs) (grouped : Bool) :
    Gives source restricted (infix_turn features min_bp lhs grouped) fun folded =>
      ∀ e ∈ folded, Kept restricted e := by
  rw [infix_turn]
  apply Method.Returns.bind_any
  intro construct
  split
  · apply gives_fold_at
    apply (gives_look _).bind
    rintro head ⟨ts, -, rfl⟩
    split
    · exact gives_unexpected _
    · next o width hhead =>
      apply Method.Returns.bind_any
      intro _
      apply (gives_parse_expr_bp _).bind
      intro right hright
      exact hlhs.infix (fun _ => peek_operator_construct_restrained hhead) hright
  apply Method.Returns.bind_any
  intro bare
  split
  · apply gives_fold_at
    apply Method.Returns.bind_any
    intro _
    apply (gives_parse_expr_bp _).bind
    intro right hright
    exact hlhs.infix (fun _ => rfl) hright
  apply (gives_look _).bind
  rintro head ⟨ts, -, rfl⟩
  split
  · exact fun e he => by cases he
  · next o op hhead =>
    apply gives_restrict_b_expr.bind
    rintro _ rfl
    split
    · exact fun e he => by cases he
    · next hwide =>
      apply gives_fold_at
      apply Method.Returns.bind_any
      intro _
      apply gives_fold_infix hlhs op
      intro h
      rw [peek_infix_operator_restrained hhead]
      rw [h, Bool.true_and] at hwide
      exact Bool.not_eq_true' _ ▸ Bool.eq_false_iff.mpr hwide

theorem gives_operator_turn {min_bp : Nat} (hlhs : Kept restricted lhs) (grouped : Bool) :
    Gives source restricted (operator_turn features forms min_bp lhs grouped) fun folded =>
      ∀ e ∈ folded, Kept restricted e := by
  rw [operator_turn]
  apply Method.Returns.bind_any
  intro op
  split
  · next op =>
    rw [ fold_postfix]
    apply gives_restrict_b_expr.bind
    rintro _ rfl
    split
    · exact fun e he => by cases he
    · next hzone =>
      apply Method.Returns.bind_any
      intro _
      apply gives_some
      apply gives_postfix hlhs
      rintro h rfl
      exact hzone (by rw [h]; rfl)
  apply Method.Returns.bind_any
  intro symbolic
  split
  · apply Method.Returns.bind_any
    intro _ e he
    rw [← Option.some.inj he]
    exact hlhs.postfix (fun _ => rfl) fun n hn => absurd hn List.not_mem_nil
  · exact gives_infix_turn hlhs grouped

theorem gives_climb_turn {min_bp : Nat} (hlhs : Kept restricted lhs) (grouped : Bool) :
    Gives source restricted (climb_turn features forms min_bp lhs grouped) fun folded =>
      ∀ e ∈ folded, Kept restricted e := by
  rw [climb_turn]
  apply Method.Returns.bind_any
  intro in_list
  split
  · apply gives_restrict_b_expr.bind
    rintro _ rfl
    split
    · exact fun e he => by cases he
    · next hoff =>
      apply gives_fold_at
      apply Method.Returns.bind_any
      intro negated
      apply Method.Returns.bind_any
      intro _
      exact gives_binary hlhs fun h => absurd h hoff
  apply (gives_look _).bind
  rintro ahead ⟨ts, -, rfl⟩
  split
  · next distinct bp form hahead =>
    apply gives_restrict_b_expr.bind
    rintro _ rfl
    split
    · exact fun e he => by cases he
    · next hdistinct =>
      apply gives_fold_at
      apply Method.Returns.bind_any
      intro _
      apply gives_predicate hlhs grouped
      intro h
      rw [predicate_ahead] at hahead
      split at hahead
      · cases hahead
        apply predicate_form_restrained
        rw [h, Bool.true_and] at hdistinct
        simpa using hdistinct
      · cases hahead
  · exact gives_operator_turn hlhs grouped

theorem gives_climb_loop {min_bp : Nat} (turns : Nat) (hlhs : Kept restricted lhs)
    (grouped : Bool) :
    Gives source restricted (climb_loop features forms min_bp turns lhs grouped)
      (Kept restricted) := by
  induction turns generalizing lhs grouped with
  | zero => exact hlhs
  | succ turns ih =>
    rw [climb_loop]
    apply (gives_climb_turn hlhs grouped).bind
    intro folded hfolded
    split
    · exact hlhs
    · exact ih (hfolded _ rfl) false

theorem gives_expr_bp_inner_body (min_bp : Nat) :
    Gives source restricted (parse_expr_bp_inner_body features forms min_bp) (Kept restricted) := by
  rw [parse_expr_bp_inner_body]
  apply gives_parse_prefix.bind
  intro parsed hparsed
  apply Method.Returns.bind_any
  intro turns
  exact gives_climb_loop turns hparsed parsed.grouped

end Operators

/-! ## Queries -/

section Queries

variable {features : FeatureSet} {forms : FormSyntax} {source : List Token} {restricted : Bool}

theorem gives_nested_bp (min_bp : Nat) :
    Gives source restricted (nested_bp min_bp) Nested.Lifted := fun _ hn => hn

theorem gives_for_system_time_tail (next : Option Token) :
    Gives source restricted (parse_for_system_time_tail features next) fun version =>
      ∀ n ∈ version, n.Lifted := by
  have hpair {first second : Nested} (hfirst : first.Lifted) (hsecond : second.Lifted) :
      ∀ n ∈ [first, second], n.Lifted := by
    intro n hn
    simp only [List.mem_cons, List.not_mem_nil, or_false] at hn
    obtain rfl | rfl := hn
    · exact hfirst
    · exact hsecond
  unfold parse_for_system_time_tail
  apply Method.Returns.bind_any
  intro _
  split
  · apply Method.Returns.bind_any
    intro _
    apply gives_parse_expr.bind
    intro point hpoint n hn
    rw [List.mem_singleton.mp hn]
    exact hpoint
  · apply (gives_nested_bp _).bind
    intro start hstart
    apply Method.Returns.bind_any
    intro _
    apply gives_parse_expr.bind
    intro stop hstop
    exact hpair hstart hstop
  · apply (gives_nested_bp _).bind
    intro start hstart
    apply Method.Returns.bind_any
    intro _
    apply (gives_nested_bp _).bind
    intro stop hstop
    exact hpair hstart hstop
  · exact fun n hn => absurd hn List.not_mem_nil
  · exact gives_unexpected _

theorem gives_table_factor :
    Gives source restricted (parse_table_factor features forms) TableFactor.Lifted := by
  rw [parse_table_factor]
  apply Method.Returns.bind_any
  intro opens
  split
  · apply (gives_query_in_parens _ _).bind
    intro subquery hsubquery
    exact TableFactor.Lifted.Derived hsubquery
  apply Method.Returns.bind_any
  intro name
  apply Method.Returns.bind_any
  intro found
  split
  · exact TableFactor.Lifted.Table name fun n hn => absurd hn List.not_mem_nil
  · apply Method.Returns.bind_any
    intro _
    apply (gives_for_system_time_tail _).bind
    intro version hversion
    exact TableFactor.Lifted.Table name hversion

theorem gives_percent_symbol_count :
    Gives source restricted (parse_percent_symbol_count_body features) Nested.Lifted := by
  rw [parse_percent_symbol_count_body]
  apply (gives_nested_bp _).bind
  intro count hcount
  apply Method.Returns.bind_any
  intro _
  exact hcount

theorem gives_limit_count :
    Gives source restricted (parse_limit_count features) Nested.Lifted := by
  rw [parse_limit_count]
  split
  · apply (Method.Returns.invoke (.attempt true) Proc.parse_limit_operand).bind
    intro found hfound
    split
    · exact hfound _ rfl
    · apply (Method.Returns.invoke (.attempt true) Proc.parse_percent_symbol_count).bind
      intro found hfound
      split
      · exact hfound _ rfl
      · exact fun count hcount => hcount
  · exact fun count hcount => hcount

theorem gives_query_inner_body :
    Gives source restricted (parse_query_inner_body features forms) Query.Lifted := by
  have hfrom : Gives source restricted (parse_from features forms) fun tables =>
      ∀ t ∈ tables, t.Lifted := by
    rw [parse_from]
    apply Method.Returns.bind_any
    intro eaten
    split
    · exact gives_comma_separated gives_table_factor
    · exact fun t ht => absurd ht List.not_mem_nil
  rw [parse_query_inner_body]
  apply Method.Returns.bind_any
  intro _
  apply (gives_comma_separated gives_parse_projection_target_expr).bind
  intro projection hprojection
  apply hfrom.bind
  intro tables htables
  apply (gives_optional _ gives_parse_expr).bind
  intro selection hselection
  apply (gives_optional _ gives_limit_count).bind
  intro limit hlimit
  exact Query.Lifted.mk hprojection htables hselection hlimit

end Queries

/-! ## Runs -/

variable {features : FeatureSet} {forms : FormSyntax} {source : List Token}

/-- Every production keeps its promise, where it may be entered under the flag. -/
theorem promised_body (restricted : Bool) (p : Proc) (hadmits : p.admits restricted = true) :
    Gives source restricted ((grammar features forms).body p) (Promised restricted p) := by
  cases p with
  | parse_expr =>
    apply gives_restrict_b_expr.bind
    rintro _ rfl
    apply (gives_parse_expr_bp 0).bind
    intro e he
    exact ⟨e, rfl, he⟩
  | parse_restricted floor => exact gives_parse_expr_bp floor
  | parse_expr_bp_inner min_bp => exact gives_expr_bp_inner_body min_bp
  | parse_prefix => exact gives_prefix_body
  | parse_query_inner grouping => exact gives_query_inner_body
  | try_parenthesized_query =>
    apply (gives_parse_query true).bind
    intro query hquery
    apply Method.Returns.bind_any
    intro _
    exact hquery
  | parse_array_row => exact gives_array_row.imp fun e he => he.1
  | parse_keyword_lambda => exact gives_keyword_lambda_body (Bool.not_eq_true' _ ▸ hadmits)
  | nested_bp min_bp => exact gives_nested_bp_body (Bool.not_eq_true' _ ▸ hadmits) min_bp
  | nested_prefix => exact gives_nested_prefix_body (Bool.not_eq_true' _ ▸ hadmits)
  | parse_limit_operand => exact gives_parse_expr
  | parse_percent_symbol_count => exact gives_percent_symbol_count
  | operand_ahead => exact Method.Returns.any _
  | json_key_ahead => exact Method.Returns.any _
  | no_json_member_ahead => exact Method.Returns.any _

/-- Whether every production that a run enters may be entered. -/
def admitted (features : FeatureSet) (forms : FormSyntax) (source : List Token)
    (limit frames : Nat) (program : ParseResult Expr) (s : method.Parser) : Bool :=
  program.throughout limit source ((grammar features forms).exec source limit frames)
    ((grammar features forms).throughout limit source
      (fun p s => p.admits (s.modes .RestrictBExpr)) frames) s

/-- The operand of `POSITION((x OR y) + z IN t)`. -/
def grouped_or : List Token :=
  [.lparen, .word ['x'], .keyword .Or, .word ['y'], .rparen, .operator .Plus, .word ['z'],
    .keyword .In, .word ['t'], .rparen]

/-- The operand of `POSITION(lambda x: x IN y)`. -/
def lambda_in : List Token :=
  [.keyword .Lambda, .word ['x'], .punctuation .Colon, .word ['x'], .keyword .In, .word ['y'],
    .rparen]

/-- The tree that a run of `b_expr` in DuckDB returns. -/
def b_expr_of (source : List Token) : Option Expr :=
  (parse_b_expr.run source 128
    ((grammar .DUCKDB .DUCKDB).exec source 128 20) (.new false)).ended.bind
    fun (result, _, _) => result.toOption

end squonk.parser.restrict
