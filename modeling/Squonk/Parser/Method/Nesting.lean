import Squonk.Dialect.Presets
import Squonk.Parser.Method.Grammar
import Squonk.Parser.Method.Stack

/-!
# Nesting in the grammar

Every cycle of calls goes through the guard or through one of the loose productions, which call
themselves without it. What is open inside each other is therefore a multiple of the limit exactly
where the loose ones are.
-/

open squonk.ast squonk.tokenizer squonk.dialect squonk.precedence

namespace squonk.parser.method

/-- The productions that come back to themselves without the guard. -/
def Proc.loose : Proc → Bool
  | parse_array_row | parse_xml_exists | parse_json_object | parse_group_by_item
  | parse_data_type | parse_set_parameter_value | parse_copy_generic_option_value
  | parse_copy_into_option_value => true
  | _ => false

/-- A call that is neither guarded nor one of a loose production goes to a lower rank. -/
def Proc.rank : Proc → Nat
  | parse_statement | parse_table_factor | parse_expr | try_parenthesized_query
  | parse_data_type | parse_set_parameter_value | parse_copy_generic_option_value
  | parse_copy_into_option_value => 0
  | parse_statement_inner | parse_table_with_joins | parse_join_inner | parse_grouped
  | parse_cast | parse_array_row | parse_group_by_item => 1
  | parse_parenthesized_table_factor_inner | parse_primary | parse_select => 2
  | operand_ahead | parse_xml_exists | parse_json_object => 3
  | parse_expr_bp_inner _ => 4
  | parse_set_expr_bp _ min_bp => 3 + (256 - min_bp)
  | parse_query_after_with _ => 260
  | parse_query_inner _ => 261

abbrev ParseResult.Ranked {α : Type} (bound : Nat) (program : ParseResult α) : Prop :=
  Method.Ranked Proc.rank Proc.loose bound program

namespace ParseResult
variable {α β : Type} {bound : Nat}

theorem ranked_bind {program : ParseResult α} {f : α → ParseResult β}
    (hprogram : program.Ranked bound) (hf : ∀ a, (f a).Ranked bound) :
    ParseResult.Ranked bound (program >>= f) := hprogram.bind hf

theorem ranked_pure (a : α) : ParseResult.Ranked bound (pure a) := trivial

@[simp]
theorem ranked_look (test : List Token → α) : (look test).Ranked bound := fun _ => trivial

@[simp]
theorem ranked_advance : advance.Ranked bound := fun _ => trivial

@[simp]
theorem ranked_unexpected (expected : String) :
    (unexpected expected : ParseResult α).Ranked bound := fun reply => nomatch reply

@[simp]
theorem ranked_clause (kind : ClauseKw) (head : Token → Bool) :
    (clause kind head).Ranked bound := fun _ => trivial

@[simp]
theorem ranked_expect_angle_gt (expected : String) :
    (expect_angle_gt expected).Ranked bound := fun _ => trivial

@[simp]
theorem ranked_query (grouping : Bool) : (parse_query grouping).Ranked bound := fun _ _ => trivial

theorem ranked_guarded (p : Proc) : (invoke .guarded p).Ranked bound := ⟨.inl rfl, fun _ => trivial⟩

theorem ranked_loose (entry : Entry) {p : Proc} (hloose : p.loose = true) :
    (invoke entry p).Ranked bound :=
  ⟨.inr (.inl hloose), fun _ => trivial⟩

theorem ranked_lower (entry : Entry) {p : Proc} (hrank : p.rank < bound) :
    (invoke entry p).Ranked bound :=
  ⟨.inr (.inr hrank), fun _ => trivial⟩

attribute [simp] ranked_pure ranked_guarded

@[simp]
theorem ranked_peek_is (token : Token) : (peek_is token).Ranked bound := ranked_look _

@[simp]
theorem ranked_peek_nth_is (n : Nat) (token : Token) : (peek_nth_is n token).Ranked bound := ranked_look _

@[simp]
theorem ranked_peek_is_word (word : String) : (peek_is_word word).Ranked bound := ranked_look _

theorem ranked_discard {program : ParseResult α} (hprogram : program.Ranked bound) :
    ParseResult.Ranked bound (discard program) :=
  ranked_bind hprogram fun _ => ranked_pure _

@[simp]
theorem ranked_peek_starts_query : peek_starts_query.Ranked bound := ranked_look _

@[simp]
theorem ranked_eat (token : Token) : (eat token).Ranked bound := by
  unfold eat
  repeat' first | split | with_reducible refine ranked_bind ?_ fun _ => ?_
  all_goals simp (disch := omega) [*]

@[simp]
theorem ranked_eat_either (first second : Token) : (eat_either first second).Ranked bound := by
  unfold eat_either
  repeat' first | split | with_reducible refine ranked_bind ?_ fun _ => ?_
  all_goals simp (disch := omega) [*]

@[simp]
theorem ranked_expect (token : Token) (expected : String) : (expect token expected).Ranked bound := by
  unfold expect
  repeat' first | split | with_reducible refine ranked_bind ?_ fun _ => ?_
  all_goals simp (disch := omega) [*]

@[simp]
theorem ranked_expect_word (word expected : String) : (expect_word word expected).Ranked bound := by
  unfold expect_word
  repeat' first | split | with_reducible refine ranked_bind ?_ fun _ => ?_
  all_goals simp (disch := omega) [*]

theorem ranked_many_tail {more : ParseResult Bool} {item : ParseResult α} (turns : Nat)
    (hmore : more.Ranked bound) (hitem : item.Ranked bound) :
    (many_tail more item turns).Ranked bound := by
  induction turns with
  | zero => exact ranked_pure _
  | succ turns ih =>
    unfold many_tail
    repeat' first | split | with_reducible refine ranked_bind ?_ fun _ => ?_
    all_goals simp (disch := omega) [*]

theorem ranked_parse_comma_separated {item : ParseResult α} (hitem : item.Ranked bound) :
    (parse_comma_separated item).Ranked bound := by
  refine ranked_bind hitem fun head => ranked_bind (ranked_look _) fun turns => ?_
  exact ranked_bind (ranked_many_tail turns (ranked_eat _) hitem) fun tail => ranked_pure _

@[simp]
theorem ranked_parse_expr (hbound : 0 < bound) : parse_expr.Ranked bound := ranked_lower _ hbound

@[simp]
theorem ranked_parse_projection_target_expr (hbound : 0 < bound) :
    parse_projection_target_expr.Ranked bound := ranked_lower _ hbound

@[simp]
theorem ranked_parse_expr_bp (min_bp : Nat) : (parse_expr_bp min_bp).Ranked bound := ranked_guarded _

@[simp]
theorem ranked_parse_data_type : parse_data_type.Ranked bound := ranked_loose _ rfl

@[simp]
theorem ranked_parse_ident : parse_ident.Ranked bound := by
  unfold parse_ident
  repeat' first | split | with_reducible refine ranked_bind ?_ fun _ => ?_
  all_goals simp (disch := omega) [*]

@[simp]
theorem ranked_parse_struct_type_field : parse_struct_type_field.Ranked bound := by
  unfold parse_struct_type_field
  repeat' first | split | with_reducible refine ranked_bind ?_ fun _ => ?_
  all_goals simp (disch := omega) [*]

@[simp]
theorem ranked_parse_struct_type_fields : parse_struct_type_fields.Ranked bound := by
  unfold parse_struct_type_fields
  repeat' first
    | split
    | with_reducible refine ranked_bind ?_ fun _ => ?_
    | with_reducible refine ranked_parse_comma_separated ?_
  all_goals simp (disch := omega) [*]

@[simp]
theorem ranked_parse_map_type : parse_map_type.Ranked bound := by
  unfold parse_map_type
  repeat' first | split | with_reducible refine ranked_bind ?_ fun _ => ?_
  all_goals simp (disch := omega) [*]

@[simp]
theorem ranked_try_parse_composite_type : try_parse_composite_type.Ranked bound := by
  unfold try_parse_composite_type
  repeat' first | split | with_reducible refine ranked_bind ?_ fun _ => ?_
  all_goals simp (disch := omega) [*]

@[simp]
theorem ranked_try_parse_angle_bracket_type : try_parse_angle_bracket_type.Ranked bound := by
  unfold try_parse_angle_bracket_type
  repeat' first
    | split
    | with_reducible refine ranked_bind ?_ fun _ => ?_
    | with_reducible refine ranked_parse_comma_separated ?_
  all_goals simp (disch := omega) [*]

@[simp]
theorem ranked_try_parse_nested_type : try_parse_nested_type.Ranked bound := by
  unfold try_parse_nested_type
  repeat' first | split | with_reducible refine ranked_bind ?_ fun _ => ?_
  all_goals simp (disch := omega) [*]

@[simp]
theorem ranked_parse_wrapped_type (kind : WrappedTypeKind) :
    (parse_wrapped_type kind).Ranked bound := by
  unfold parse_wrapped_type
  repeat' first | split | with_reducible refine ranked_bind ?_ fun _ => ?_
  all_goals simp (disch := omega) [*]

@[simp]
theorem ranked_try_parse_wrapped_type (types : TypeNameSyntax) :
    (try_parse_wrapped_type types).Ranked bound := by
  unfold try_parse_wrapped_type
  repeat' first | split | with_reducible refine ranked_bind ?_ fun _ => ?_
  all_goals simp (disch := omega) [*]

theorem ranked_or_else (gate : Bool) {reader next : ParseResult (Option DataType)}
    (hreader : reader.Ranked bound) (hnext : next.Ranked bound) :
    (or_else gate reader next).Ranked bound := by
  unfold or_else
  repeat' first | split | with_reducible refine ranked_bind ?_ fun _ => ?_
  all_goals simp (disch := omega) [*]

@[simp]
theorem ranked_try_parse_dialect_type_name (types : TypeNameSyntax) :
    (try_parse_dialect_type_name types).Ranked bound := by
  unfold try_parse_dialect_type_name
  repeat' with_reducible refine ranked_or_else _ ?_ ?_
  all_goals simp

@[simp]
theorem ranked_parse_array_suffixes (turns : Nat) (data_type : DataType) :
    (parse_array_suffixes turns data_type).Ranked bound := by
  induction turns generalizing data_type with
  | zero => exact ranked_pure _
  | succ turns ih =>
    unfold parse_array_suffixes
    repeat' first | split | with_reducible refine ranked_bind ?_ fun _ => ?_
    all_goals simp (disch := omega) [*]

theorem ranked_parse_typed_data_type (types : TypeNameSyntax) :
    (parse_typed_data_type types).Ranked bound := by
  unfold parse_typed_data_type
  repeat' first | split | with_reducible refine ranked_bind ?_ fun _ => ?_
  all_goals simp (disch := omega) [*]

section Expressions

variable (features : FeatureSet)

@[simp]
theorem ranked_parse_primary (hbound : 2 < bound) : parse_primary.Ranked bound :=
  ranked_lower _ hbound

@[simp]
theorem ranked_peek_operand_follows_operator (hbound : 3 < bound) :
    peek_operand_follows_operator.Ranked bound := by
  have hprobe := ranked_lower (p := .operand_ahead) .probe hbound
  unfold peek_operand_follows_operator
  repeat' first | split | with_reducible refine ranked_bind ?_ fun _ => ?_
  all_goals simp (disch := omega) [*]

@[simp]
theorem ranked_peek_postfix_symbolic_operator (hbound : 3 < bound) :
    peek_postfix_symbolic_operator.Ranked bound := by
  unfold peek_postfix_symbolic_operator
  repeat' first | split | with_reducible refine ranked_bind ?_ fun _ => ?_
  all_goals simp (disch := omega) [*]

@[simp]
theorem ranked_mode (mode : Mode) : ParseResult.Ranked bound (Method.step (.mode mode)) :=
  fun _ => trivial

@[simp]
theorem ranked_infix_turn (min_bp : Nat) (lhs : Expr) (grouped : Bool) :
    (infix_turn features min_bp lhs grouped).Ranked bound := by
  unfold infix_turn
  repeat' first | split | dsimp only | with_reducible refine ranked_bind ?_ fun _ => ?_
  all_goals first | exact ranked_mode _ | simp (disch := omega) [*]

@[simp]
theorem ranked_climb_turn (hbound : 3 < bound) (min_bp : Nat) (lhs : Expr) (grouped : Bool) :
    (climb_turn features min_bp lhs grouped).Ranked bound := by
  unfold climb_turn
  repeat' first | split | dsimp only | with_reducible refine ranked_bind ?_ fun _ => ?_
  all_goals simp (disch := omega) [*]

@[simp]
theorem ranked_climb_loop (hbound : 3 < bound) (min_bp turns : Nat) (lhs : Expr)
    (grouped : Bool) : (climb_loop features min_bp turns lhs grouped).Ranked bound := by
  induction turns generalizing lhs grouped with
  | zero => exact ranked_pure _
  | succ turns ih =>
    unfold climb_loop
    repeat' first | split | with_reducible refine ranked_bind ?_ fun _ => ?_
    all_goals simp (disch := omega) [*]

@[simp]
theorem ranked_parse_array_multidim_elements (hbound : 0 < bound) :
    parse_array_multidim_elements.Ranked bound := by
  have hrow := @ranked_loose bound .plain .parse_array_row rfl
  unfold parse_array_multidim_elements
  repeat' first
    | split
    | with_reducible refine ranked_bind ?_ fun _ => ?_
    | with_reducible refine ranked_parse_comma_separated ?_
  all_goals simp (disch := omega) [*]

@[simp]
theorem ranked_parse_array (hbound : 0 < bound) : (parse_array features).Ranked bound := by
  unfold parse_array
  repeat' first
    | split
    | with_reducible refine ranked_bind ?_ fun _ => ?_
    | with_reducible refine ranked_parse_comma_separated ?_
  all_goals simp (disch := omega) [*]

theorem ranked_parse_array_row_body (hbound : 0 < bound) :
    parse_array_row_body.Ranked bound := by
  unfold parse_array_row_body
  repeat' first | split | with_reducible refine ranked_bind ?_ fun _ => ?_
  all_goals simp (disch := omega) [*]

@[simp]
theorem ranked_parse_xml_passing_mechanism : parse_xml_passing_mechanism.Ranked bound := by
  unfold parse_xml_passing_mechanism
  repeat' first | split | with_reducible refine ranked_bind ?_ fun _ => ?_
  all_goals simp (disch := omega) [*]

theorem ranked_parse_xml_exists_body (hbound : 2 < bound) :
    parse_xml_exists_body.Ranked bound := by
  unfold parse_xml_exists_body
  repeat' first | split | with_reducible refine ranked_bind ?_ fun _ => ?_
  all_goals simp (disch := omega) [*]

@[simp]
theorem ranked_parse_json_member (hbound : 2 < bound) : parse_json_member.Ranked bound := by
  unfold parse_json_member
  repeat' first | split | with_reducible refine ranked_bind ?_ fun _ => ?_
  all_goals simp (disch := omega) [*]

theorem ranked_parse_json_object_body (hbound : 2 < bound) :
    parse_json_object_body.Ranked bound := by
  unfold parse_json_object_body
  repeat' first
    | split
    | with_reducible refine ranked_bind ?_ fun _ => ?_
    | with_reducible refine ranked_parse_comma_separated ?_
  all_goals simp (disch := omega) [*]

theorem ranked_parse_primary_body (hbound : 1 < bound) :
    (parse_primary_body features).Ranked bound := by
  have hgrouped := ranked_lower (p := .parse_grouped) .plain hbound
  have hcast := ranked_lower (p := .parse_cast) .plain hbound
  have hxml := @ranked_loose bound .plain .parse_xml_exists rfl
  have hjson := @ranked_loose bound .plain .parse_json_object rfl
  unfold parse_primary_body
  repeat' first | split | with_reducible refine ranked_bind ?_ fun _ => ?_
  all_goals simp (disch := omega) [*]

theorem ranked_parse_grouped_body (hbound : 0 < bound) : parse_grouped_body.Ranked bound := by
  have hquery := ranked_lower (p := .try_parenthesized_query) (.attempt false) hbound
  unfold parse_grouped_body
  repeat' first | split | with_reducible refine ranked_bind ?_ fun _ => ?_
  all_goals simp (disch := omega) [*]

theorem ranked_parse_cast_body (hbound : 0 < bound) : parse_cast_body.Ranked bound := by
  unfold parse_cast_body
  repeat' first | split | with_reducible refine ranked_bind ?_ fun _ => ?_
  all_goals simp (disch := omega) [*]

end Expressions

section Tables

variable (features : FeatureSet)

@[simp]
theorem ranked_parse_table_factor (hbound : 0 < bound) : parse_table_factor.Ranked bound :=
  ranked_lower _ hbound

@[simp]
theorem ranked_parse_table_with_joins (hbound : 1 < bound) :
    parse_table_with_joins.Ranked bound :=
  ranked_lower _ hbound

@[simp]
theorem ranked_parse_joins (turns : Nat) : (parse_joins turns).Ranked bound := by
  have hjoin := @ranked_guarded bound .parse_join_inner
  induction turns with
  | zero => exact ranked_pure _
  | succ turns ih =>
    unfold parse_joins
    repeat' first | split | with_reducible refine ranked_bind ?_ fun _ => ?_
    all_goals simp (disch := omega) [*]

theorem ranked_parse_table_with_joins_body (hbound : 0 < bound) :
    parse_table_with_joins_body.Ranked bound := by
  unfold parse_table_with_joins_body
  repeat' first | split | with_reducible refine ranked_bind ?_ fun _ => ?_
  all_goals simp (disch := omega) [*]

@[simp]
theorem ranked_parse_join_right_operand (factor : TableFactor) :
    (parse_join_right_operand features factor).Ranked bound := by
  unfold parse_join_right_operand
  repeat' first | split | with_reducible refine ranked_bind ?_ fun _ => ?_
  all_goals simp (disch := omega) [*]

@[simp]
theorem ranked_parse_join_constraint (hbound : 0 < bound) :
    parse_join_constraint.Ranked bound := by
  unfold parse_join_constraint
  repeat' first | split | with_reducible refine ranked_bind ?_ fun _ => ?_
  all_goals simp (disch := omega) [*]

theorem ranked_parse_join_body (hbound : 0 < bound) : (parse_join_body features).Ranked bound := by
  unfold parse_join_body
  repeat' first | split | with_reducible refine ranked_bind ?_ fun _ => ?_
  all_goals simp (disch := omega) [*]

theorem ranked_parse_table_factor_body : parse_table_factor_body.Ranked bound := by
  have hfactor := @ranked_guarded bound .parse_parenthesized_table_factor_inner
  unfold parse_table_factor_body
  repeat' first | split | with_reducible refine ranked_bind ?_ fun _ => ?_
  all_goals simp (disch := omega) [*]

theorem ranked_parse_parenthesized_table_factor_body (hbound : 1 < bound) :
    parse_parenthesized_table_factor_body.Ranked bound := by
  have hquery : (invoke (.attempt false) .try_parenthesized_query).Ranked bound :=
    ranked_lower _ (Nat.zero_lt_of_lt hbound)
  unfold parse_parenthesized_table_factor_body
  repeat' first | split | with_reducible refine ranked_bind ?_ fun _ => ?_
  all_goals simp (disch := omega) [*]

end Tables

section Queries

variable (features : FeatureSet)

@[simp]
theorem ranked_parse_group_by_item : parse_group_by_item.Ranked bound := ranked_loose _ rfl

@[simp]
theorem ranked_parse_paren_expr_list (hbound : 0 < bound) :
    parse_paren_expr_list.Ranked bound := by
  unfold parse_paren_expr_list
  repeat' first
    | split
    | with_reducible refine ranked_bind ?_ fun _ => ?_
    | with_reducible refine ranked_parse_comma_separated ?_
  all_goals simp (disch := omega) [*]

@[simp]
theorem ranked_parse_grouping_set_construct (hbound : 0 < bound) :
    parse_grouping_set_construct.Ranked bound := by
  unfold parse_grouping_set_construct
  repeat' first
    | split
    | with_reducible refine ranked_bind ?_ fun _ => ?_
    | with_reducible refine ranked_parse_comma_separated ?_
  all_goals simp (disch := omega) [*]

theorem ranked_parse_group_by_item_body (hbound : 0 < bound) :
    (parse_group_by_item_body features).Ranked bound := by
  unfold parse_group_by_item_body
  repeat' first | split | dsimp only | with_reducible refine ranked_bind ?_ fun _ => ?_
  all_goals simp (disch := omega) [*]

theorem ranked_parse_select_body (hbound : 1 < bound) : parse_select_body.Ranked bound := by
  unfold parse_select_body
  repeat' first
    | split
    | with_reducible refine ranked_bind ?_ fun _ => ?_
    | with_reducible refine ranked_parse_comma_separated ?_
  all_goals simp (disch := omega) [*]

@[simp]
theorem ranked_parse_parenthesized_set_operand (grouping : Bool) :
    (parse_parenthesized_set_operand features grouping).Ranked bound := by
  unfold parse_parenthesized_set_operand
  dsimp only
  repeat' first | split | with_reducible refine ranked_bind ?_ fun _ => ?_
  all_goals simp (disch := omega) [*]

@[simp]
theorem ranked_parse_set_operand (hbound : 2 < bound) (grouping : Bool) :
    (parse_set_operand features grouping).Ranked bound := by
  have hselect := ranked_lower (p := .parse_select) .owned hbound
  unfold parse_set_operand parse_select
  repeat' first | split | with_reducible refine ranked_bind ?_ fun _ => ?_
  all_goals simp (disch := omega) [*]

@[simp]
theorem ranked_parse_set_quantifier (op : SetOperator) :
    (parse_set_quantifier features op).Ranked bound := by
  unfold parse_set_quantifier
  repeat' first | split | dsimp only | with_reducible refine ranked_bind ?_ fun _ => ?_
  all_goals simp (disch := omega) [*]

/-- The right operand binds more tightly than the operator in front of it. -/
def tightens (features : FeatureSet) : Prop :=
  ∀ op, (features.set_operation_binding_power op).left <
    (features.set_operation_binding_power op).right ∧
      (features.set_operation_binding_power op).right ≤ 256

theorem ranked_set_operations (htightens : tightens features) (min_bp turns : Nat)
    (body : SetExpr) :
    (set_operations features min_bp turns body).Ranked (3 + (256 - min_bp)) := by
  induction turns generalizing body with
  | zero => exact ranked_pure _
  | succ turns ih =>
    unfold set_operations
    refine ranked_bind (ranked_look _) fun next => ?_
    split
    · exact ranked_pure _
    · next op =>
      dsimp only
      split
      · exact ranked_pure _
      · next hbinds =>
        obtain ⟨hless, hle⟩ := htightens op
        have hrank : (Proc.parse_set_expr_bp false
            (features.set_operation_binding_power op).right).rank < 3 + (256 - min_bp) := by
          simp only [Proc.rank]
          omega
        have hright := ranked_lower .plain hrank
        refine ranked_bind ranked_advance fun _ => ?_
        refine ranked_bind (ranked_parse_set_quantifier features op) fun all => ?_
        exact ranked_bind hright fun _ => ih _

theorem ranked_parse_set_expr_bp_body (htightens : tightens features) (grouping : Bool)
    (min_bp : Nat) :
    (parse_set_expr_bp_body features grouping min_bp).Ranked (3 + (256 - min_bp)) := by
  have hoperations := ranked_set_operations features htightens min_bp
  unfold parse_set_expr_bp_body
  repeat' first | split | with_reducible refine ranked_bind ?_ fun _ => ?_
  all_goals simp (disch := omega) [*]

theorem ranked_parse_query_after_with_body (hbound : 259 < bound) (grouping : Bool) :
    (parse_query_after_with_body grouping).Ranked bound := by
  have hbody := ranked_lower (p := .parse_set_expr_bp grouping 0) .plain hbound
  unfold parse_query_after_with_body
  repeat' first
    | split
    | with_reducible refine ranked_bind ?_ fun _ => ?_
    | with_reducible refine ranked_parse_comma_separated ?_
  all_goals simp (disch := omega) [*]

theorem ranked_parse_query_inner_body (hbound : 260 < bound) (grouping : Bool) :
    (parse_query_inner_body grouping).Ranked bound := by
  have hbody := ranked_lower (p := .parse_query_after_with grouping) .owned hbound
  unfold parse_query_inner_body
  repeat' first | split | with_reducible refine ranked_bind ?_ fun _ => ?_
  all_goals simp (disch := omega) [*]

end Queries

section Statements

variable (features : FeatureSet)

@[simp]
theorem ranked_parse_signed_number (expected : String) :
    (parse_signed_number expected).Ranked bound := by
  unfold parse_signed_number
  repeat' first | split | with_reducible refine ranked_bind ?_ fun _ => ?_
  all_goals simp (disch := omega) [*]

@[simp]
theorem ranked_parse_as_alias_ident : parse_as_alias_ident.Ranked bound := by
  unfold parse_as_alias_ident
  repeat' first | split | with_reducible refine ranked_bind ?_ fun _ => ?_
  all_goals simp (disch := omega) [*]

@[simp]
theorem ranked_parse_string_literal (expected : String) :
    (parse_string_literal expected).Ranked bound := by
  unfold parse_string_literal
  repeat' first | split | with_reducible refine ranked_bind ?_ fun _ => ?_
  all_goals simp (disch := omega) [*]

theorem ranked_parse_set_parameter_value_body :
    (parse_set_parameter_value_body features).Ranked bound := by
  have hvalue := @ranked_loose bound .plain .parse_set_parameter_value rfl
  unfold parse_set_parameter_value_body
  repeat' first
    | split
    | with_reducible refine ranked_bind ?_ fun _ => ?_
    | with_reducible refine ranked_parse_comma_separated ?_
  all_goals simp (disch := omega) [*]

@[simp]
theorem ranked_parse_set : parse_set.Ranked bound := by
  have hvalue := @ranked_loose bound .plain .parse_set_parameter_value rfl
  unfold parse_set
  repeat' first
    | split
    | with_reducible refine ranked_bind ?_ fun _ => ?_
    | with_reducible refine ranked_parse_comma_separated ?_
  all_goals simp (disch := omega) [*]

theorem ranked_parse_copy_generic_option_value_body :
    parse_copy_generic_option_value_body.Ranked bound := by
  have hvalue := @ranked_loose bound .plain .parse_copy_generic_option_value rfl
  unfold parse_copy_generic_option_value_body
  repeat' first
    | split
    | with_reducible refine ranked_bind ?_ fun _ => ?_
    | with_reducible refine ranked_parse_comma_separated ?_
  all_goals simp (disch := omega) [*]

@[simp]
theorem ranked_parse_copy_option : parse_copy_option.Ranked bound := by
  have hvalue := @ranked_loose bound .plain .parse_copy_generic_option_value rfl
  unfold parse_copy_option
  repeat' first | split | with_reducible refine ranked_bind ?_ fun _ => ?_
  all_goals simp (disch := omega) [*]

@[simp]
theorem ranked_parse_optional_copy_options : parse_optional_copy_options.Ranked bound := by
  unfold parse_optional_copy_options
  repeat' first
    | split
    | with_reducible refine ranked_bind ?_ fun _ => ?_
    | with_reducible refine ranked_parse_comma_separated ?_
    | with_reducible refine ranked_discard ?_
  all_goals simp (disch := omega) [*]

@[simp]
theorem ranked_parse_copy_into_option : parse_copy_into_option.Ranked bound := by
  have hvalue := @ranked_loose bound .plain .parse_copy_into_option_value rfl
  unfold parse_copy_into_option
  repeat' first | split | with_reducible refine ranked_bind ?_ fun _ => ?_
  all_goals simp (disch := omega) [*]

theorem ranked_parse_copy_into_option_value_body :
    parse_copy_into_option_value_body.Ranked bound := by
  have hvalue := @ranked_loose bound .plain .parse_copy_generic_option_value rfl
  unfold parse_copy_into_option_value_body
  repeat' first
    | split
    | with_reducible refine ranked_bind ?_ fun _ => ?_
    | with_reducible refine ranked_many_tail _ ?_ ?_
  all_goals simp (disch := omega) [*]

@[simp]
theorem ranked_parse_copy_into : parse_copy_into.Ranked bound := by
  unfold parse_copy_into peek_starts_copy_into_option
  repeat' first
    | split
    | with_reducible refine ranked_bind ?_ fun _ => ?_
    | with_reducible refine ranked_many_tail _ ?_ ?_
  all_goals simp (disch := omega) [*]

@[simp]
theorem ranked_parse_copy (hbound : 0 < bound) : parse_copy.Ranked bound := by
  have hstatement := ranked_lower (p := .parse_statement) .plain hbound
  unfold parse_copy
  repeat' first | split | with_reducible refine ranked_bind ?_ fun _ => ?_
  all_goals simp (disch := omega) [*]

theorem ranked_parse_statement_inner_body (hbound : 0 < bound) :
    (parse_statement_inner_body features).Ranked bound := by
  unfold parse_statement_inner_body parse_copy_or_copy_into_statement
  repeat' first | split | with_reducible refine ranked_bind ?_ fun _ => ?_
  all_goals simp (disch := omega) [*]

end Statements
end ParseResult

open squonk.parser.method.ParseResult

theorem builtin_tightens (dialect : BuiltinDialect) : tightens dialect.features := by
  intro op
  cases dialect <;> cases op <;> decide

def sql_ranking (dialect : BuiltinDialect) (types : TypeNameSyntax) :
    (sql dialect.features types).Ranking where
  rank := Proc.rank
  loose := Proc.loose
  top := 261
  rank_le p := by cases p <;> simp only [Proc.rank] <;> omega
  body_ranked p := by
    have htightens := builtin_tightens dialect
    cases p with
    | parse_statement => exact ranked_guarded _
    | parse_statement_inner => exact ranked_parse_statement_inner_body _ (by decide)
    | parse_query_inner grouping => exact ranked_parse_query_inner_body (by simp only [Proc.rank]; decide) _
    | parse_query_after_with grouping => exact ranked_parse_query_after_with_body (by simp only [Proc.rank]; decide) _
    | parse_set_expr_bp grouping min_bp => exact ranked_parse_set_expr_bp_body _ htightens _ _
    | parse_select => exact ranked_parse_select_body (by decide)
    | parse_table_with_joins => exact ranked_parse_table_with_joins_body (by decide)
    | parse_table_factor => exact ranked_parse_table_factor_body
    | parse_parenthesized_table_factor_inner => exact ranked_parse_parenthesized_table_factor_body (by decide)
    | parse_join_inner => exact ranked_parse_join_body _ (by decide)
    | parse_expr => exact ranked_parse_expr_bp 0
    | parse_expr_bp_inner min_bp =>
      have hrank : 3 < (Proc.parse_expr_bp_inner min_bp).rank := Nat.lt_succ_self 3
      exact ranked_bind (ranked_parse_primary (Nat.lt_of_succ_lt hrank)) fun _ =>
        ranked_bind (ranked_look _) fun _ => ranked_climb_loop _ hrank _ _ _ _
    | parse_primary => exact ranked_parse_primary_body _ (by decide)
    | operand_ahead => 
      exact ranked_bind ranked_advance fun _ => ranked_bind (ranked_parse_primary (by decide)) fun _ => ranked_pure _
    | parse_grouped => exact ranked_parse_grouped_body (by decide)
    | try_parenthesized_query =>
      exact ranked_bind (ranked_query true) fun _ => ranked_bind (ranked_expect _ _) fun _ => ranked_pure _
    | parse_cast => exact ranked_parse_cast_body (by decide)
    | parse_array_row => exact ranked_parse_array_row_body (by decide)
    | parse_xml_exists => exact ranked_parse_xml_exists_body (by decide)
    | parse_json_object => exact ranked_parse_json_object_body (by decide)
    | parse_group_by_item => exact ranked_parse_group_by_item_body _ (by decide)
    | parse_data_type => exact ranked_parse_typed_data_type types
    | parse_set_parameter_value => exact ranked_parse_set_parameter_value_body _
    | parse_copy_generic_option_value => exact ranked_parse_copy_generic_option_value_body
    | parse_copy_into_option_value => exact ranked_parse_copy_into_option_value_body

/-- What is open inside each other in a statement, as a multiple of what the guard and the loose
productions count. -/
theorem live_statement_length_le {dialect : BuiltinDialect} {types : TypeNameSyntax} {limit : Nat}
    {source : List Token} {s t : Parser} {stack : List (Frame (sql dialect.features types).Proc)}
    (hs : s.recursion_depth = 0)
    (hlive : Live (sql dialect.features types) source limit .parse_statement s stack t) :
    t.recursion_depth = stack.countP (·.guarded) ∧ stack.countP (·.guarded) ≤ limit ∧
      stack.length ≤ 262 * (limit + stack.countP (·.proc.loose)) := by
  obtain ⟨hdepth, hlimit⟩ := hlive.depth
  have hguards := hlimit (by omega)
  rw [hs, Nat.zero_add] at hdepth
  refine ⟨hdepth, hdepth ▸ hguards, ?_⟩
  calc stack.length ≤ 0 + 262 * (stack.countP (·.guarded) + stack.countP (·.proc.loose)) :=
        hlive.length_le (sql_ranking dialect types)
    _ ≤ 262 * (limit + stack.countP (·.proc.loose)) := by
      rw [Nat.zero_add]
      apply Nat.mul_le_mul_left
      omega

/-- A statement is read on a stack of that size. -/
theorem exec_statement_ends (dialect : BuiltinDialect) (types : TypeNameSyntax) (limit nests : Nat)
    (source : List Token) {s : Parser} (hs : s.recursion_depth = 0)
    (hnests : ∀ stack t, Live (sql dialect.features types) source limit .parse_statement s stack t →
      stack.countP (·.proc.loose) ≤ nests) :
    ∃ result s' trail, (sql dialect.features types).exec source limit (262 * (limit + nests) + 1)
      .parse_statement s = .done result s' trail := by
  cases hrun : (sql dialect.features types).exec source limit (262 * (limit + nests) + 1)
      .parse_statement s with
  | overflow =>
    obtain ⟨stack, t, hlive, hlength⟩ := (exec_overflow_iff _ _ _ s).mp hrun
    have hle := (live_statement_length_le hs hlive).2.2
    have hnested : 262 * (limit + stack.countP (·.proc.loose)) ≤ 262 * (limit + nests) :=
      Nat.mul_le_mul_left _ (Nat.add_le_add_left (hnests stack t hlive) _)
    exact absurd (Nat.le_trans hle hnested) (by omega)
  | done result s' trail => exact ⟨result, s', trail, rfl⟩

/-- `SET a = [[[...`, with as many brackets as there are to be. -/
def set_brackets (n : Nat) : List Token :=
  [.keyword .Set, .word ['a'], .operator .Eq] ++ List.replicate n (.punctuation .LBracket)

theorem ahead_set_brackets (n m : Nat) {s : Parser} (hpos : s.pos = 3 + m) :
    s.ahead (set_brackets n) = List.replicate (n - m) (.punctuation .LBracket) := by
  have hdrop : (set_brackets n).drop s.pos =
      List.replicate (n - m) (.punctuation .LBracket) := by
    rw [hpos, ← List.drop_drop]
    exact List.drop_replicate
  rw [Parser.ahead, hdrop, List.takeWhile_replicate]
  rfl

theorem length_set_brackets (n : Nat) : (set_brackets n).length = 3 + n := by
  rw [set_brackets, List.length_append, List.length_replicate]
  rfl

section Brackets

variable {limit n m : Nat} {s : Parser}

/-- A list that opens in a list is read by a call inside of the call. -/
theorem calls_parse_set_parameter_value (frames : Nat) (hpos : s.pos = 3 + m) (hm : m + 1 < n) :
    Calls (set_brackets n) limit
      ((sql FeatureSet.DUCKDB .DUCKDB).exec (set_brackets n) limit frames)
      ((sql FeatureSet.DUCKDB .DUCKDB).body .parse_set_parameter_value) s
      ⟨false, .parse_set_parameter_value⟩ { s with pos := 3 + (m + 1) } := by
  obtain ⟨k, hk⟩ : ∃ k, n - m = k + 2 := ⟨n - m - 2, by omega⟩
  have hahead := ahead_set_brackets n m hpos
  have hnext : ({ s with pos := 3 + (m + 1) } : Parser).ahead (set_brackets n) = _ :=
    ahead_set_brackets n (m + 1) rfl
  rw [hk] at hahead
  rw [show n - (m + 1) = k + 1 by omega] at hnext
  have hopens : perform (set_brackets n)
      (.look fun ts => ts.head? == some (.punctuation .LBracket)) s = .done (.ok true) s {} := by
    simp only [perform, hahead]
    rfl
  have hadvance : perform (set_brackets n) .advance s =
      .done (.ok ()) { s with pos := 3 + (m + 1) } {} := by
    have hlt : s.pos < (set_brackets n).length := by
      rw [length_set_brackets]
      omega
    simp only [perform, Parser.step, Parser.advance, if_pos hlt, Parser.peek, hahead]
    rw [hpos]
    rfl
  have hinner : perform (set_brackets n)
      (.look fun ts => ts.head? == some (.punctuation .RBracket))
        { s with pos := 3 + (m + 1) } = .done (.ok false) { s with pos := 3 + (m + 1) } {} := by
    simp only [perform, hnext]
    rfl
  refine .act hopens (.act hadvance (.act hinner ?_))
  exact .here rfl

theorem live_parse_set_parameter_value (j : Nat) (hpos : s.pos = 3 + m) (hm : m + j < n) :
    ∃ t, Live (sql FeatureSet.DUCKDB .DUCKDB) (set_brackets n) limit .parse_set_parameter_value s
      (List.replicate j ⟨false, .parse_set_parameter_value⟩) t := by
  induction j generalizing m s with
  | zero => exact ⟨s, .top _ s⟩
  | succ j ih =>
    obtain ⟨t, hlive⟩ := @ih (m + 1) { s with pos := 3 + (m + 1) } rfl (by omega)
    exact ⟨t, .call (calls_parse_set_parameter_value 0 hpos (by omega)) hlive⟩

/-- The way from a statement to the first bracket. -/
theorem calls_parse_statement_inner (frames : Nat) :
    Calls (set_brackets n) limit
      ((sql FeatureSet.DUCKDB .DUCKDB).exec (set_brackets n) limit frames)
      ((sql FeatureSet.DUCKDB .DUCKDB).body .parse_statement_inner)
      { Parser.new false with recursion_depth := 1 } ⟨false, .parse_set_parameter_value⟩
      { Parser.new false with recursion_depth := 1, pos := 3 } := by
  let at_pos (pos : Nat) : Parser := { Parser.new false with recursion_depth := 1, pos }
  have hset : perform (set_brackets n) (.look fun ts => ts.head? == some (.keyword .Set))
      (at_pos 0) = .done (.ok true) (at_pos 0) {} := rfl
  have htarget : perform (set_brackets n) .advance (at_pos 0) =
    .done (.ok ()) (at_pos 1) {} := rfl
  have hname : perform (set_brackets n) (.look fun ts => ts.head?) (at_pos 1) =
    .done (.ok (some (.word ['a']))) (at_pos 1) {} := rfl
  have hsign : perform (set_brackets n) .advance (at_pos 1) =
    .done (.ok ()) (at_pos 2) {} := rfl
  have heq : perform (set_brackets n) (.look fun ts => ts.head? == some (.operator .Eq))
      (at_pos 2) = .done (.ok true) (at_pos 2) {} := rfl
  have hvalue : perform (set_brackets n) .advance (at_pos 2) =
    .done (.ok ()) (at_pos 3) {} := rfl
  refine .act hset (.act htarget (.act hname (.act hsign (.act heq (.act hvalue ?_)))))
  exact .here rfl

end Brackets

def Frame.reads (p : Proc) (frame : Frame Proc) : Bool := frame.proc = p

end squonk.parser.method
