import Squonk.Dialect.Presets
import Squonk.Render.Readable

/-!
# Ranks of the dialects

The ranks of a dialect's binary operators do not interleave. Only `IS` as an equality is read at
another rank than the table gives it.
-/

open squonk.ast squonk.tokenizer squonk.dialect squonk.precedence squonk.parser.expr climbing

namespace squonk.render

variable {features : FeatureSet}

/-- `IS` as an equality. -/
def is_equality : BinaryOperator → Bool
  | .IsDistinctFrom .Is | .IsNotDistinctFrom .Is => true
  | _ => false

/-- `IS DISTINCT FROM`, in words. -/
def is_distinct_test : BinaryOperator → Bool
  | .IsDistinctFrom .Keyword | .IsNotDistinctFrom .Keyword => true
  | _ => false

theorem left_infix_of (op : BinaryOperator) :
    (reader features).left ( infix_of op) =
      if is_equality op then features.binding_powers.predicate.left
      else (features.binding_power op).left := by
  cases op
  all_goals first
    | rfl
    | (rename_i spelling; cases spelling <;> rfl)

theorem right_infix_of (op : BinaryOperator) :
    (reader features).right ( infix_of op) = (features.binding_power op).right := by
  cases op
  all_goals first
    | rfl
    | (rename_i spelling; cases spelling <;> rfl)

theorem rank_infix_of (op : BinaryOperator) :
    rank features (.inl ( infix_of op)) =
      if is_equality op then features.binding_powers.predicate else features.binding_power op := by
  cases op
  all_goals first
    | rfl
    | (rename_i spelling; cases spelling <;> rfl)

theorem checks_chain_infix_of (op : BinaryOperator) : checks_chain (.inl ( infix_of op)) = true := by
  cases op
  all_goals first
    | rfl
    | (rename_i spelling; cases spelling <;> rfl)

/-- What the rules for parentheses rely on: `ranks` holds the ranks of the binary operators. -/
structure Ranked (features : FeatureSet) (ranks : List BindingPower) : Prop where
  mem : ∀ op, Admits features op → features.binding_power op ∈ ranks
  width : ∀ a ∈ ranks, a.left < a.right
  apart : ∀ a ∈ ranks, ∀ b ∈ ranks, a.left < b.left → a.right < b.left
  assoc_eq : ∀ a ∈ ranks, ∀ b ∈ ranks, a.left = b.left → a = b
  not_right : ∀ a ∈ ranks, a.assoc ≠ .Right

/-- What they rely on where `IS` is an equality, read at the rank of the predicates. -/
structure RankedEquality (features : FeatureSet) (ranks : List BindingPower) : Prop where
  left_le : features.binding_powers.predicate.left ≤ features.binding_powers.comparison.left
  eq_or_lt : features.binding_powers.predicate = features.binding_powers.comparison ∨
    features.binding_powers.predicate.left < features.binding_powers.comparison.left ∧
      features.binding_powers.predicate.assoc = .NonAssoc ∧
      features.binding_powers.comparison.assoc = .NonAssoc
  left_gap : ∀ a ∈ ranks, a.left < features.binding_powers.comparison.left →
    a.left ≤ features.binding_powers.predicate.left
  right_gap : ∀ a ∈ ranks, a.right ≤ features.binding_powers.comparison.left →
    a.right ≤ features.binding_powers.predicate.left ∨ a = features.binding_powers.predicate
  prefix_gap : ∀ op, features.prefix_binding_power op ≤ features.binding_powers.comparison.left →
    features.prefix_binding_power op ≤ features.binding_powers.predicate.left

/-! ## The dialects -/

theorem scanned_operator {op : Operator} (h : Scanned features (.operator op)) :
    features.operator_syntax.custom_operators = true ∨ op ∈ known_operators features ∨
      op = .ColonEquals := by
  obtain ⟨c, cs, rest, -, hscan⟩ := h
  unfold scan_token at hscan
  split at hscan
  · cases hscan
  split at hscan
  · unfold scan_string at hscan
    dsimp only at hscan
    split at hscan
    · cases hscan
    split at hscan <;> cases hscan
  split at hscan
  · unfold scan_quoted_ident at hscan
    split at hscan
    · cases hscan
    split at hscan <;> cases hscan
  split at hscan
  · cases hscan
  split at hscan
  · unfold scan_word at hscan
    dsimp only at hscan
    split at hscan <;> cases hscan
  split at hscan
  · unfold scan_number at hscan
    dsimp only at hscan
    split at hscan <;> cases hscan
  split at hscan
  · obtain ⟨op', tail, heq, -, -, -, hknown⟩ := scan_operator_self hscan
    rw [Token.operator.inj heq]
    exact hknown.imp id Or.inl
  · unfold scan_punctuation at hscan
    repeat' split at hscan
    all_goals first
      | exact Or.inr (Or.inr (Token.operator.inj (Prod.mk.inj (Option.some.inj hscan)).1).symm)
      | cases hscan

/-- The ranks of a dialect's binary operators. -/
def dialect_ranks : BuiltinDialect → List BindingPower
  | .Postgres | .QuiltDb | .Lenient =>
    [⟨10, 11, .Left⟩, ⟨15, 16, .Left⟩, ⟨20, 21, .Left⟩, ⟨35, 36, .NonAssoc⟩, ⟨40, 41, .NonAssoc⟩,
     ⟨42, 43, .NonAssoc⟩, ⟨45, 46, .Left⟩, ⟨50, 51, .Left⟩, ⟨60, 61, .Left⟩, ⟨65, 66, .Left⟩]
  | .DuckDb =>
    [⟨4, 5, .Left⟩, ⟨10, 11, .Left⟩, ⟨15, 16, .Left⟩, ⟨20, 21, .Left⟩, ⟨35, 36, .NonAssoc⟩,
     ⟨40, 41, .NonAssoc⟩, ⟨42, 43, .NonAssoc⟩, ⟨45, 46, .Left⟩, ⟨50, 51, .Left⟩, ⟨60, 61, .Left⟩,
     ⟨65, 66, .Left⟩]
  | .MySql =>
    [⟨10, 11, .Left⟩, ⟨15, 16, .Left⟩, ⟨20, 21, .Left⟩, ⟨40, 41, .Left⟩, ⟨42, 43, .Left⟩,
     ⟨44, 45, .Left⟩, ⟨47, 48, .Left⟩, ⟨50, 51, .Left⟩, ⟨60, 61, .Left⟩, ⟨65, 66, .Left⟩]
  | .Sqlite =>
    [⟨10, 11, .Left⟩, ⟨15, 16, .Left⟩, ⟨20, 21, .Left⟩, ⟨40, 41, .Left⟩, ⟨42, 43, .NonAssoc⟩,
     ⟨45, 46, .Left⟩, ⟨50, 51, .Left⟩, ⟨60, 61, .Left⟩, ⟨65, 66, .Left⟩]
  | _ =>
    [⟨10, 11, .Left⟩, ⟨15, 16, .Left⟩, ⟨20, 21, .Left⟩, ⟨40, 41, .NonAssoc⟩, ⟨42, 43, .NonAssoc⟩,
     ⟨45, 46, .Left⟩, ⟨50, 51, .Left⟩, ⟨60, 61, .Left⟩, ⟨65, 66, .Left⟩]

/-- MySQL has none of the operators whose rank touches that of `&`. -/
theorem mysql_admits {op : BinaryOperator} (h : Admits FeatureSet.MYSQL op) :
    FeatureSet.MYSQL.binding_power op ∈ dialect_ranks .MySql := by
  have hscanned : ∀ {token : Operator}, Scanned FeatureSet.MYSQL (.operator token) →
      token ∈ known_operators FeatureSet.MYSQL ∨ token = .ColonEquals := by
    intro token htoken
    rcases scanned_operator htoken with hcustom | hknown
    · cases hcustom
    · exact hknown
  have hsymbol : ∀ {token : Operator} {means : BinaryOperator},
      token ∉ known_operators FeatureSet.MYSQL → token ≠ .ColonEquals →
      ¬ ( symbolic_infix FeatureSet.MYSQL token = some (.symbol token means) ∧
        Scanned FeatureSet.MYSQL (.operator token)) := by
    rintro token means hunknown hassign ⟨-, htoken⟩
    rcases hscanned htoken with hknown | heq
    · exact hunknown hknown
    · exact hassign heq
  cases op
  case StringConcat => cases h.1
  case Overlap => cases h.1
  case Overlaps => cases h
  case Contains | ContainedBy | StartsWith | JsonGet | JsonGetText | JsonExists | JsonExistsAny |
      JsonExistsAll | JsonPathExists | JsonPathMatch | JsonExtractPath | JsonExtractPathText |
      JsonDeletePath =>
    exact absurd h (hsymbol (by decide) (by decide))
  all_goals first
    | decide
    | (rename_i spelling; cases spelling <;> decide)

/-- The ranks of a table that binary operators other than the tests in words have. -/
def symbol_ranks (table : BindingPowerTable) : List BindingPower :=
  [table.or, table.xor, table.and, table.comparison, table.double_equals, table.additive,
   table.multiplicative, table.exponent, table.string_concat, table.any_operator, table.json_get,
   table.bitwise_or, table.bitwise_and, table.bitwise_shift, table.bitwise_xor, OVERLAPS_PREDICATE]

theorem binary_mem_ranks (table : BindingPowerTable) (op : BinaryOperator) :
    is_distinct_test op = true ∧ table.binary op = table.predicate ∨
      table.binary op ∈ symbol_ranks table := by
  cases op with
  | Eq spelling | IsDistinctFrom spelling | IsNotDistinctFrom spelling =>
    cases spelling <;> simp [BindingPowerTable.binary, is_distinct_test, symbol_ranks]
  | _ => simp [BindingPowerTable.binary, symbol_ranks]

theorem binding_power_mem {features : FeatureSet} {ranks : List BindingPower}
    (hpredicate : features.binding_powers.predicate ∈ ranks)
    (hsymbol : ∀ p ∈ symbol_ranks features.binding_powers, p ∈ ranks) (op : BinaryOperator) :
    features.binding_power op ∈ ranks := by
  rw [FeatureSet.binding_power]
  obtain ⟨-, h⟩ | h := binary_mem_ranks features.binding_powers op
  · rwa [h]
  · exact hsymbol _ h

/-- The ranks of every dialect lie apart. -/
theorem builtin_ranked (dialect : BuiltinDialect) :
    Ranked dialect.features (dialect_ranks dialect) where
  mem op h := by
    cases dialect
    case MySql => exact mysql_admits h
    all_goals exact binding_power_mem (by decide) (by decide) op
  width := by
    unfold dialect_ranks
    split <;> decide
  apart := by
    unfold dialect_ranks
    split <;> decide
  assoc_eq := by
    unfold dialect_ranks
    split <;> decide
  not_right := by
    unfold dialect_ranks
    split <;> decide

theorem builtin_ranked_equality (dialect : BuiltinDialect)
    (h : dialect.features.operator_syntax.is_general_equality = true) :
    RankedEquality dialect.features (dialect_ranks dialect) := by
  have hprefix : ∀ features : FeatureSet, (∀ op ∈ [UnaryOperator.Not, .Minus, .Plus, .BitwiseNot, .Prior],
      features.prefix_binding_power op ≤ features.binding_powers.comparison.left →
        features.prefix_binding_power op ≤ features.binding_powers.predicate.left) →
      ∀ op, features.prefix_binding_power op ≤ features.binding_powers.comparison.left →
        features.prefix_binding_power op ≤ features.binding_powers.predicate.left := by
    intro features hall op
    exact hall op (by cases op <;> decide)
  cases dialect
  case Sqlite =>
    exact ⟨by decide, Or.inl rfl, by decide, by decide, hprefix _ (by decide)⟩
  case Lenient =>
    exact ⟨by decide, Or.inr ⟨by decide, rfl, rfl⟩, by decide, by decide, hprefix _ (by decide)⟩
  all_goals cases h

/-- Only the tests in words have the rank of the predicates, where that is not the comparisons'. -/
theorem builtin_distinct_rank (dialect : BuiltinDialect) {op : BinaryOperator}
    (hrank : dialect.features.binding_power op = dialect.features.binding_powers.predicate)
    (hbelow : dialect.features.binding_powers.predicate ≠ dialect.features.binding_powers.comparison) :
    is_distinct_test op = true := by
  obtain ⟨h, -⟩ | h := binary_mem_ranks dialect.features.binding_powers op
  · exact h
  · have hmem : dialect.features.binding_powers.predicate ∈
        symbol_ranks dialect.features.binding_powers := hrank ▸ h
    cases dialect
    case Postgres | QuiltDb | DuckDb | Lenient => exact absurd hmem (by decide)
    all_goals exact absurd rfl hbelow

end squonk.render
