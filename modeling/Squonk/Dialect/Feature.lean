import Squonk.Ast.Precedence
import Squonk.Dialect.LexClass
import Squonk.Tokenizer.Token

/-!
# Dialects

What a dialect admits: its precedence tables, the readings it gives to the spellings that
dialects disagree about, and the gates of its grammar.
-/

open squonk.ast squonk.precedence squonk.tokenizer

namespace squonk.dialect

/-- What `||` means. -/
inductive PipeOperator | StringConcat | LogicalOr
  deriving DecidableEq

/-- What `&&` means. -/
inductive DoubleAmpersand | Unsupported | LogicalAnd | Overlaps
  deriving DecidableEq

/-- What `^` means. -/
inductive CaretOperator | Unsupported | Exponent | BitwiseXor
  deriving DecidableEq

/-- Which words are read as infix operators. -/
inductive KeywordOperators | Unsupported | MySql | DuckDb | Sqlite
  deriving DecidableEq

structure SelectSyntax where
  union_by_name : Bool
  intersect_all : Bool
  except_all : Bool
  from_first : Bool
  explicit_table : Bool
  parenthesized_query_operands : Bool
  deriving DecidableEq

structure QueryTailSyntax where
  fetch_first : Bool
  limit_offset_comma : Bool
  locking_clauses : Bool
  key_lock_strengths : Bool
  stacked_locking_clauses : Bool
  leading_offset : Bool
  limit_expressions : Bool
  limit_percent : Bool
  with_ties_requires_order_by : Bool
  pipe_syntax : Bool
  limit_by_clause : Bool
  settings_clause : Bool
  format_clause : Bool
  for_xml_json_clause : Bool
  deriving DecidableEq

structure GroupingSyntax where
  order_by_using : Bool
  order_by_all : Bool
  grouping_sets : Bool
  deriving DecidableEq

structure JoinSyntax where
  recursive_search_cycle : Bool
  recursive_union_rejects_order_limit : Bool
  recursive_using_key : Bool
  stacked_join_qualifiers : Bool
  deriving DecidableEq

structure TableFactorSyntax where
  pivot : Bool
  unpivot : Bool
  deriving DecidableEq

structure TableExpressionSyntax where
  table_json_path : Bool
  deriving DecidableEq

structure MutationSyntax where
  data_modifying_ctes : Bool
  merge : Bool
  deriving DecidableEq

structure OperatorSyntax where
  operator_construct : Bool
  containment_operators : Bool
  json_arrow_operators : Bool
  jsonb_operators : Bool
  double_equals : Bool
  integer_divide_slash : Bool
  starts_with_operator : Bool
  is_general_equality : Bool
  truth_value_tests : Bool
  null_safe_equals : Bool
  lambda_expressions : Bool
  bitwise_operators : Bool
  quantified_comparisons : Bool
  quantified_comparison_lists : Bool
  quantified_arbitrary_operator : Bool
  custom_operators : Bool
  null_test_postfix : Bool
  postfix_operators : Bool
  deriving DecidableEq

structure PredicateSyntax where
  is_distinct_from : Bool
  like : Bool
  ilike : Bool
  similar_to : Bool
  overlaps_period_predicate : Bool
  unparenthesized_in_list : Bool
  pattern_match_quantifier : Bool
  between_symmetric : Bool
  is_normalized : Bool
  empty_in_list : Bool
  null_test_two_word_postfix : Bool
  deriving DecidableEq

structure CallSyntax where
  named_argument : Bool
  sqljson_expression_functions : Bool
  xml_expression_functions : Bool
  deriving DecidableEq

structure ExpressionSyntax where
  typecast_operator : Bool
  subscript : Bool
  collate : Bool
  at_time_zone : Bool
  semi_structured_access : Bool
  field_selection : Bool
  field_wildcard : Bool
  positional_column : Bool
  array_constructor : Bool
  multidim_array_literals : Bool
  collection_literals : Bool
  deriving DecidableEq

structure CommentSyntax where
  line_comment_hash : Bool
  line_comment_ends_at_carriage_return : Bool
  nested_block_comments : Bool
  /-- The server version whose versioned comments are read, where they are comments at all. -/
  versioned_comments : Option Nat
  unterminated_block_comment_at_eof : Bool
  deriving DecidableEq

structure StringLiteralSyntax where
  escape_strings : Bool
  dollar_quoted_strings : Bool
  national_strings : Bool
  double_quoted_strings : Bool
  backslash_escapes : Bool
  unicode_strings : Bool
  bit_string_literals : Bool
  blob_literals : Bool
  charset_introducers : Bool
  deriving DecidableEq

structure NumericLiteralSyntax where
  hex_integers : Bool
  octal_integers : Bool
  binary_integers : Bool
  underscore_separators : Bool
  radix_leading_underscore : Bool
  reject_trailing_junk : Bool
  money_literals : Bool
  deriving DecidableEq

structure ParameterSyntax where
  positional_dollar : Bool
  anonymous_question : Bool
  named_colon : Bool
  named_at : Bool
  named_dollar : Bool
  numbered_question : Bool
  deriving DecidableEq

/-- Which characters outside ASCII may stand in a name. -/
inductive NonAsciiIdentifierSyntax | UnicodeAlphanumeric | Any
  deriving DecidableEq

structure IdentifierSyntax where
  non_ascii : NonAsciiIdentifierSyntax
  dollar_in_identifiers : Bool
  empty_quoted_identifiers : Bool
  deriving DecidableEq

structure SessionVariableSyntax where
  user_variables : Bool
  system_variables : Bool
  variable_assignment : Bool
  deriving DecidableEq

structure UtilitySyntax where
  stage_references : Bool
  copy : Bool
  copy_into : Bool
  deriving DecidableEq

structure ShowSyntax where
  session_statements : Bool
  deriving DecidableEq

structure FeatureSet where
  byte_classes : ByteClasses
  binding_powers : BindingPowerTable
  set_operation_powers : SetOperationBindingPowerTable
  pipe_operator : PipeOperator
  double_ampersand : DoubleAmpersand
  keyword_operators : KeywordOperators
  caret_operator : CaretOperator
  hash_bitwise_xor : Bool
  /-- The keywords that may not stand as a column name. -/
  reserved_column_name : Keyword → Bool
  /-- The other words that may not: reserved ones, and those that open a form of their own. -/
  reserved_words : List String
  /-- The delimiters a quoted name opens and closes with. -/
  identifier_quotes : List (Char × Char)
  select_syntax : SelectSyntax
  query_tail_syntax : QueryTailSyntax
  grouping_syntax : GroupingSyntax
  join_syntax : JoinSyntax
  table_factor_syntax : TableFactorSyntax
  table_expressions : TableExpressionSyntax
  mutation_syntax : MutationSyntax
  operator_syntax : OperatorSyntax
  predicate_syntax : PredicateSyntax
  call_syntax : CallSyntax
  expression_syntax : ExpressionSyntax
  comment_syntax : CommentSyntax
  string_literals : StringLiteralSyntax
  numeric_literals : NumericLiteralSyntax
  parameters : ParameterSyntax
  identifier_syntax : IdentifierSyntax
  session_variables : SessionVariableSyntax
  utility_syntax : UtilitySyntax
  show_syntax : ShowSyntax

namespace FeatureSet

def has_byte_class (self : FeatureSet) (byte mask : UInt8) : Bool :=
  self.byte_classes.has_class byte mask

def set_operation_binding_power (self : FeatureSet) (op : SetOperator) : BindingPower :=
  self.set_operation_powers.set_operation op

end FeatureSet

end squonk.dialect
