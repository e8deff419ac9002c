import Squonk.Dialect.Presets

/-!
# Lexical conflicts

The registry of the pairs of features that claim one trigger of the scanner.
-/

open squonk.dialect.lex_class

namespace squonk.dialect

/-- Two features that both claim the same trigger. -/
inductive LexicalConflict
  | DoubleQuoteStringVersusIdentifier
  | BracketIdentifierVersusArraySyntax
  | MoneyVersusPositionalDollar
  | AtNameParameterVersusUserVariable
  | NamedDollarParameterVersusDollarQuotedString
  | HashCommentVersusHashIdentifier
  | HashXorOperatorVersusHashComment
  | HashXorOperatorVersusPositionalColumn
  | HashCommentVersusPositionalColumn
  | ColonParameterVersusSliceBound
  | ContainmentOperatorVersusAtName
  | JsonbKeyExistsVersusAnonymousParameter
  | JsonbSearchOperatorVersusSystemVariable
  | CustomOperatorVersusAtName
  | CustomOperatorVersusSystemVariable
  | DollarSigilVersusIdentifierByte
  | AtSigilVersusIdentifierByte
  | ColonSigilVersusIdentifierByte
  deriving DecidableEq

def identifier_quotes_open_with (quotes : List (Char × Char)) (opening : Char) : Bool :=
  quotes.any fun style => style.1 == opening

namespace FeatureSet

/-- The first conflict of the feature set. -/
def lexical_conflict (self : FeatureSet) : Option LexicalConflict :=
  let strings := self.string_literals
  let parameters := self.parameters
  let expressions := self.expression_syntax
  let operators := self.operator_syntax
  let session := self.session_variables
  let starts_identifier (c : Char) : Bool :=
    self.byte_classes.has_class (ascii c) CLASS_IDENTIFIER_START
  if strings.double_quoted_strings && identifier_quotes_open_with self.identifier_quotes '"' then
    some .DoubleQuoteStringVersusIdentifier
  else if identifier_quotes_open_with self.identifier_quotes '[' &&
      (expressions.subscript || expressions.array_constructor ||
        expressions.collection_literals || self.table_expressions.table_json_path) then
    some .BracketIdentifierVersusArraySyntax
  else if parameters.named_colon &&
      (expressions.subscript || expressions.collection_literals ||
        expressions.semi_structured_access) then
    some .ColonParameterVersusSliceBound
  else if self.numeric_literals.money_literals && parameters.positional_dollar then
    some .MoneyVersusPositionalDollar
  else if parameters.named_dollar && strings.dollar_quoted_strings then
    some .NamedDollarParameterVersusDollarQuotedString
  else if self.comment_syntax.line_comment_hash && starts_identifier '#' then
    some .HashCommentVersusHashIdentifier
  else if self.hash_bitwise_xor && self.comment_syntax.line_comment_hash then
    some .HashXorOperatorVersusHashComment
  else if expressions.positional_column && self.hash_bitwise_xor then
    some .HashXorOperatorVersusPositionalColumn
  else if expressions.positional_column && self.comment_syntax.line_comment_hash then
    some .HashCommentVersusPositionalColumn
  else if parameters.named_at && session.user_variables then
    some .AtNameParameterVersusUserVariable
  else if operators.containment_operators &&
      (parameters.named_at || session.user_variables) then
    some .ContainmentOperatorVersusAtName
  else if operators.jsonb_operators && parameters.anonymous_question then
    some .JsonbKeyExistsVersusAnonymousParameter
  else if operators.jsonb_operators && session.system_variables then
    some .JsonbSearchOperatorVersusSystemVariable
  else if operators.custom_operators && (parameters.named_at || session.user_variables) then
    some .CustomOperatorVersusAtName
  else if operators.custom_operators && !operators.jsonb_operators &&
      session.system_variables then
    some .CustomOperatorVersusSystemVariable
  else if (strings.dollar_quoted_strings || parameters.positional_dollar ||
      self.numeric_literals.money_literals) && starts_identifier '$' then
    some .DollarSigilVersusIdentifierByte
  else if (parameters.named_at || session.user_variables || session.system_variables) &&
      starts_identifier '@' then
    some .AtSigilVersusIdentifierByte
  else if parameters.named_colon && starts_identifier ':' then
    some .ColonSigilVersusIdentifierByte
  else none

/-- What the registry asks of the feature set. -/
structure Consistent (features : FeatureSet) : Prop where
  double_quote : (features.string_literals.double_quoted_strings &&
    identifier_quotes_open_with features.identifier_quotes '"') = false
  bracket : (identifier_quotes_open_with features.identifier_quotes '[' &&
    (features.expression_syntax.subscript || features.expression_syntax.array_constructor ||
      features.expression_syntax.collection_literals || features.table_expressions.table_json_path)) = false
  colon : (features.parameters.named_colon &&
    (features.expression_syntax.subscript || features.expression_syntax.collection_literals ||
      features.expression_syntax.semi_structured_access)) = false
  dollar_digit : (features.numeric_literals.money_literals &&
    features.parameters.positional_dollar) = false
  dollar_name : (features.parameters.named_dollar &&
    features.string_literals.dollar_quoted_strings) = false
  hash_comment_identifier : (features.comment_syntax.line_comment_hash &&
    features.byte_classes.has_class (ascii '#') CLASS_IDENTIFIER_START) = false
  hash_xor_comment : (features.hash_bitwise_xor && features.comment_syntax.line_comment_hash) = false
  hash_column_xor : (features.expression_syntax.positional_column && features.hash_bitwise_xor) = false
  hash_column_comment : (features.expression_syntax.positional_column &&
    features.comment_syntax.line_comment_hash) = false
  at_name : (features.parameters.named_at && features.session_variables.user_variables) = false
  contained_at : (features.operator_syntax.containment_operators &&
    (features.parameters.named_at || features.session_variables.user_variables)) = false
  question : (features.operator_syntax.jsonb_operators &&
    features.parameters.anonymous_question) = false
  jsonb_at_at : (features.operator_syntax.jsonb_operators &&
    features.session_variables.system_variables) = false
  custom_at : (features.operator_syntax.custom_operators &&
    (features.parameters.named_at || features.session_variables.user_variables)) = false
  custom_at_at : (features.operator_syntax.custom_operators &&
    !features.operator_syntax.jsonb_operators && features.session_variables.system_variables) = false
  dollar_byte : ((features.string_literals.dollar_quoted_strings ||
      features.parameters.positional_dollar || features.numeric_literals.money_literals) &&
    features.byte_classes.has_class (ascii '$') CLASS_IDENTIFIER_START) = false
  at_byte : ((features.parameters.named_at || features.session_variables.user_variables ||
      features.session_variables.system_variables) &&
    features.byte_classes.has_class (ascii '@') CLASS_IDENTIFIER_START) = false
  colon_byte : (features.parameters.named_colon &&
    features.byte_classes.has_class (ascii ':') CLASS_IDENTIFIER_START) = false

theorem lexical_conflict_eq_none_iff {features : FeatureSet} :
    features.lexical_conflict = none ↔ features.Consistent := by
  unfold lexical_conflict
  simp only [ite_eq_right_iff, reduceCtorEq, imp_false, ite_eq_iff, and_false, false_or,
    Bool.not_eq_true]
  constructor
  · rintro ⟨h₁, h₂, h₃, h₄, h₅, h₆, h₇, h₈, h₉, h₁₀, h₁₁, h₁₂, h₁₃, h₁₄, h₁₅, h₁₆, h₁₇, h₁₈⟩
    exact ⟨h₁, h₂, h₃, h₄, h₅, h₆, h₇, h₈, h₉, h₁₀, h₁₁, h₁₂, h₁₃, h₁₄, h₁₅, h₁₆, h₁₇, h₁₈⟩
  · intro h
    exact ⟨h.1, h.2, h.3, h.4, h.5, h.6, h.7, h.8, h.9, h.10, h.11, h.12, h.13, h.14, h.15, h.16,
      h.17, h.18⟩

end FeatureSet

/-- No dialect that is built in has a conflict. -/
theorem BuiltinDialect.lexical_conflict_eq_none (dialect : BuiltinDialect) :
    dialect.features.lexical_conflict = none := by
  cases dialect <;> decide +kernel

end squonk.dialect
