import Squonk.Parser.Clause.ListEnd

/-!
# Bare aliases in front of clauses

A bare alias may stand behind a select item, a wildcard, a table and the target of a statement.
Where a clause opened by a word that is a name too can follow, the reader of the alias asks for
the clause first. Each position has a reader of its own, which asks for clauses of its own.
-/

open squonk.ast squonk.tokenizer squonk.dialect listing listing.Reader

namespace squonk.parser.clause.bare_alias

/-- The gates of the aliases and of the clauses behind them, and the words that are no alias of a
select item. -/
structure AliasSyntax where
  reserved_bare_alias : List String
  reserved_as_label : List String
  wildcard_modifiers : Bool
  qualified_wildcard_alias : Bool
  alias_string_literals : Bool
  bare_alias_string_literals : Bool
  as_alias_rejects_reserved : Bool
  bare_table_alias_is_bare_label : Bool
  table_alias_column_lists : Bool
  base_table_alias_column_lists : Bool
  string_literal_aliases : Bool
  indexed_by : Bool
  index_hints : Bool
  table_sample : Bool
  lateral_view_clause : Bool
  connect_by_clause : Bool
  qualify : Bool
  using_sample : Bool
  pivot : Bool
  unpivot : Bool
  pivot_value_sources : Bool
  match_recognize : Bool
  deriving DecidableEq

def SQLITE_STRUCTURAL_RESERVED : List String :=
  ["add", "all", "alter", "and", "as", "between", "case", "check", "collate", "commit",
   "constraint", "create", "default", "deferrable", "delete", "distinct", "drop", "else", "escape",
   "except", "exists", "foreign", "from", "group", "having", "in", "index", "insert", "intersect",
   "into", "is", "join", "limit", "not", "null", "on", "or", "order", "primary", "references",
   "select", "set", "table", "then", "to", "transaction", "union", "unique", "update", "using",
   "values", "when", "where"]

def SQLITE_JOIN_KEYWORDS : List String :=
  ["cross", "inner", "left", "natural", "outer", "right", "full"]

def AliasSyntax.SQLITE : AliasSyntax where
  reserved_bare_alias :=
    SQLITE_STRUCTURAL_RESERVED ++ SQLITE_JOIN_KEYWORDS ++ ["returning", "nothing"]
  reserved_as_label :=
    SQLITE_STRUCTURAL_RESERVED ++ ["returning", "nothing", "isnull", "notnull"]
  wildcard_modifiers := false
  qualified_wildcard_alias := false
  alias_string_literals := true
  bare_alias_string_literals := true
  as_alias_rejects_reserved := false
  bare_table_alias_is_bare_label := true
  table_alias_column_lists := false
  base_table_alias_column_lists := true
  string_literal_aliases := false
  indexed_by := true
  index_hints := false
  table_sample := false
  lateral_view_clause := false
  connect_by_clause := false
  qualify := false
  using_sample := false
  pivot := false
  unpivot := false
  pivot_value_sources := false
  match_recognize := false

/-! ## Aliases -/

inductive AliasSpelling | As | Bare
  deriving DecidableEq

/-- A column of a function in `FROM`, with its type. -/
structure TableFunctionColumn (T : Type) where
  name : Ident
  data_type : T
  deriving DecidableEq

/-- What stands at an alias position. -/
structure Alias (T : Type) where
  name : Option Name
  columns : List Name
  column_defs : List (TableFunctionColumn T)
  spelling : AliasSpelling
  deriving DecidableEq

variable {T : Type}

def Alias.absent : Alias T := ⟨none, [], [], .As⟩

def Alias.named (name : Name) (spelling : AliasSpelling) : Alias T := ⟨some name, [], [], spelling⟩

/-- The name a token stands for where the words of `reserved` are no names. -/
def admitting (reserved : List String) (t : Token) : Option Ident :=
  if reserved.any fun word => token_is_contextual_keyword word t then none else label t

def peek_is_punct (punct : Punctuation) (ts : List Token) : Bool :=
  ts.head? == some (.punctuation punct)

section
variable (features : FeatureSet) (syntaxes : AliasSyntax)

/-! ## Select items -/

def as_label (t : Token) : Option Name :=
  (if syntaxes.alias_string_literals then string_alias t else none).or
    ((admitting (if syntaxes.as_alias_rejects_reserved then syntaxes.reserved_bare_alias
      else syntaxes.reserved_as_label) t).map Name.ident)

def bare_label (t : Token) : Option Name :=
  (if syntaxes.bare_alias_string_literals then string_alias t else none).or
    ((admitting syntaxes.reserved_bare_alias t).map Name.ident)

def parse_optional_alias : ParseResult (Alias T) := do
  if ← eat_contextual_keyword "as" then
    return .named (← token (as_label syntaxes) "an alias") .As
  else if ← look (list_end.peek_opens_settings_clause features) then
    return .absent
  else if ← look (list_end.peek_opens_format_clause features) then
    return .absent
  else
    match ← optional_token (bare_label syntaxes) with
    | some name => return .named name .Bare
    | none => return .absent

def parse_gated_wildcard_alias : ParseResult (Alias T) := do
  if syntaxes.wildcard_modifiers then
    parse_optional_alias features syntaxes
  else
    return .absent

def parse_gated_qualified_wildcard_alias : ParseResult (Alias T) := do
  if syntaxes.qualified_wildcard_alias then
    parse_optional_alias features syntaxes
  else
    return .absent

/-! ## Tables -/

def peek_opens_hierarchical_clause (ts : List Token) : Bool :=
  syntaxes.connect_by_clause &&
    (list_end.opens_pair "start" "with" ts || list_end.opens_pair "connect" "by" ts)

/-- The word alone: `BY` is asked for by the reader of the clause. -/
def peek_opens_indexed_by_clause (ts : List Token) : Bool :=
  syntaxes.indexed_by && peek_is_contextual_keyword "indexed" ts

def column_ident (t : Token) : Option Name := (expr.column_name features t).map Name.ident

def table_alias_ident (t : Token) : Option Name :=
  (if syntaxes.string_literal_aliases then string_alias t else none).or (column_ident features t)

def bare_table_label (t : Token) : Option Name :=
  if syntaxes.bare_table_alias_is_bare_label then
    (admitting syntaxes.reserved_bare_alias t).map Name.ident
  else
    column_ident features t

/-- The columns behind the name of an alias. -/
def parse_alias_columns (base_table : Bool) (name : Name) (spelling : AliasSpelling) :
    ParseResult (Alias T) := do
  if ← look (peek_is_punct .LParen) then
    if !syntaxes.table_alias_column_lists ||
        (base_table && !syntaxes.base_table_alias_column_lists) then
      fail "a table alias supported by this dialect"
    else
      advance
      let columns ← parse_comma_separated (token (table_alias_ident features syntaxes)
        "an identifier")
      expect_punct .RParen "`)` to close the table alias column list"
      return ⟨some name, columns, [], spelling⟩
  else
    return .named name spelling

def parse_optional_table_alias_impl (base_table : Bool) : ParseResult (Alias T) := do
  if ← eat_contextual_keyword "as" then
    let name ← token (table_alias_ident features syntaxes) "an identifier"
    parse_alias_columns features syntaxes base_table name .As
  else if ← look (list_end.peek_opens_window_clause features) then
    return .absent
  else if ← look (list_end.peek_opens_settings_clause features) then
    return .absent
  else if ← look (list_end.peek_opens_format_clause features) then
    return .absent
  else if ← look (peek_opens_hierarchical_clause syntaxes) then
    return .absent
  else if base_table && (← look (peek_opens_indexed_by_clause syntaxes)) then
    return .absent
  else
    match ← optional_token (bare_table_label features syntaxes) with
    | some name => parse_alias_columns features syntaxes base_table name .Bare
    | none => return .absent

/-! ## Functions in `FROM` -/

section
variable (parse_data_type : ParseResult T)

def finish_table_func_element (name : Ident) : ParseResult (TableFunctionColumn T) := do
  return ⟨name, ← parse_data_type⟩

def parse_table_func_element : ParseResult (TableFunctionColumn T) := do
  let name ← token (expr.column_name features) "an identifier"
  finish_table_func_element parse_data_type name

def parse_table_func_element_list : ParseResult (List (TableFunctionColumn T)) := do
  expect_punct .LParen "`(` to open the column definition list"
  let column_defs ← parse_comma_separated (parse_table_func_element features parse_data_type)
  expect_punct .RParen "`)` to close the column definition list"
  return column_defs

/-- The parenthesis behind the name of an alias. Its first element says whether it holds names or
columns with their types. -/
def parse_named_function_alias_paren (name : Name) (spelling : AliasSpelling) :
    ParseResult (Alias T) := do
  advance
  let first ← token (expr.column_name features) "an identifier"
  if ← look fun ts => peek_is_punct .Comma ts || peek_is_punct .RParen ts then
    if !syntaxes.table_alias_column_lists then
      fail "a table alias supported by this dialect"
    else
      let columns ← many (comma_turn (token (column_ident features) "an identifier"))
      expect_punct .RParen "`)` to close the table alias column list"
      return ⟨some name, .ident first :: columns, [], spelling⟩
  else
    let head ← finish_table_func_element parse_data_type first
    let column_defs ← many (comma_turn (parse_table_func_element features parse_data_type))
    expect_punct .RParen "`)` to close the column definition list"
    return ⟨some name, [], head :: column_defs, spelling⟩

def finish_function_alias (name : Name) (spelling : AliasSpelling) : ParseResult (Alias T) := do
  if ← look (peek_is_punct .LParen) then
    parse_named_function_alias_paren features syntaxes parse_data_type name spelling
  else
    return .named name spelling

def parse_function_alias_clause : ParseResult (Alias T) := do
  if ← eat_contextual_keyword "as" then
    if ← look (peek_is_punct .LParen) then
      return ⟨none, [], ← parse_table_func_element_list features parse_data_type, .As⟩
    else
      let name ← token (column_ident features) "an identifier"
      finish_function_alias features syntaxes parse_data_type name .As
  else
    match ← optional_token (column_ident features) with
    | some name => finish_function_alias features syntaxes parse_data_type name .Bare
    | none => return .absent

end

/-! ## Targets -/

/-- A statement that names the table it changes. -/
inductive Mutation | Update | Delete | Merge
  deriving DecidableEq

def Mutation.stop_keywords : Mutation → List String
  | .Update => ["set"]
  | .Delete => ["using", "where", "returning"]
  | .Merge => ["using"]

/-- A target's alias may not be one of the words that `stop_keywords` lists. -/
def target_label (stop_keywords : List String) (t : Token) : Option Name :=
  if stop_keywords.any fun word => token_is_contextual_keyword word t then none
  else column_ident features t

def parse_optional_dml_alias (stop_keywords : List String) : ParseResult (Alias T) := do
  if ← eat_contextual_keyword "as" then
    return .named (← token (column_ident features) "an identifier") .As
  else
    match ← optional_token (target_label features stop_keywords) with
    | some name => return .named name .Bare
    | none => return .absent

end

/-! ## Positions -/

/-- Where a bare alias may stand. The operands of a join are tables. -/
inductive Position
  | select_item
  | wildcard
  | qualified_wildcard
  | base_table
  | derived_table
  | function
  | target (mutation : Mutation)
  deriving DecidableEq

section
variable (features : FeatureSet) (syntaxes : AliasSyntax) (parse_data_type : ParseResult T)

/-- Whether an alias may stand there. -/
def Position.aliased : Position → Bool
  | .wildcard => syntaxes.wildcard_modifiers
  | .qualified_wildcard => syntaxes.qualified_wildcard_alias
  | _ => true

def Position.parse_alias : Position → ParseResult (Alias T)
  | .select_item => parse_optional_alias features syntaxes
  | .wildcard => parse_gated_wildcard_alias features syntaxes
  | .qualified_wildcard => parse_gated_qualified_wildcard_alias features syntaxes
  | .base_table => parse_optional_table_alias_impl features syntaxes true
  | .derived_table => parse_optional_table_alias_impl features syntaxes false
  | .function => parse_function_alias_clause features syntaxes parse_data_type
  | .target mutation => parse_optional_dml_alias features mutation.stop_keywords

/-- The name that a token is as a bare alias. -/
def Position.bare_name : Position → Token → Option Name
  | .select_item | .wildcard | .qualified_wildcard => bare_label syntaxes
  | .base_table | .derived_table => bare_table_label features syntaxes
  | .function | .target _ => column_ident features

/-- The reader of what belongs to a bare alias behind its name. -/
def Position.finish (position : Position) (name : Name) : ParseResult (Alias T) :=
  match position with
  | .select_item | .wildcard | .qualified_wildcard | .target _ => return .named name .Bare
  | .base_table => parse_alias_columns features syntaxes true name .Bare
  | .derived_table => parse_alias_columns features syntaxes false name .Bare
  | .function => finish_function_alias features syntaxes parse_data_type name .Bare

end

/-! ## Clauses -/

/-- A clause behind an alias position, opened by a word that may be a name. -/
inductive Clause
  | LateralView | StartWith | ConnectBy | Window | Qualify | UsingSample
  | Settings | Format | LockInShareMode
  | IndexedBy | UseIndex | ForceIndex | IgnoreIndex | TableSample
  | Pivot | Unpivot | MatchRecognize
  | Set | Using | Where | Returning
  deriving DecidableEq

def Clause.word : Clause → String
  | .LateralView => "lateral" | .StartWith => "start" | .ConnectBy => "connect"
  | .Window => "window" | .Qualify => "qualify" | .Settings => "settings" | .Format => "format"
  | .LockInShareMode => "lock" | .IndexedBy => "indexed" | .UseIndex => "use"
  | .ForceIndex => "force" | .IgnoreIndex => "ignore" | .TableSample => "tablesample"
  | .Pivot => "pivot" | .Unpivot => "unpivot" | .MatchRecognize => "match_recognize"
  | .Set => "set" | .UsingSample | .Using => "using" | .Where => "where"
  | .Returning => "returning"

/-- `INDEX` or `KEY` behind the word of an index hint. -/
def index_hint_keyword (ts : List Token) : Bool :=
  peek_nth_is_contextual_keyword 1 "index" ts || peek_nth_is_contextual_keyword 1 "key" ts

section
variable (features : FeatureSet) (syntaxes : AliasSyntax) (starts : Clause → List Token → Bool)

def peek_pivot (ts : List Token) : Bool :=
  (syntaxes.pivot || syntaxes.pivot_value_sources) && peek_is_contextual_keyword "pivot" ts &&
    peek_is_punct .LParen ts.tail

def peek_unpivot (ts : List Token) : Bool :=
  (syntaxes.unpivot || syntaxes.pivot_value_sources) && peek_is_contextual_keyword "unpivot" ts &&
    (peek_is_punct .LParen ts.tail || peek_nth_is_contextual_keyword 1 "include" ts ||
      peek_nth_is_contextual_keyword 1 "exclude" ts)

def peek_match_recognize (ts : List Token) : Bool :=
  syntaxes.match_recognize && peek_is_contextual_keyword "match_recognize" ts &&
    peek_is_punct .LParen ts.tail

/-- The test with which the reader of a clause begins. -/
def Clause.leads : Clause → List Token → Bool
  | .Settings, ts =>
    features.query_tail_syntax.settings_clause && peek_is_contextual_keyword "settings" ts
  | .Format, ts =>
    features.query_tail_syntax.format_clause && peek_is_contextual_keyword "format" ts
  | .LateralView, ts => syntaxes.lateral_view_clause && list_end.opens_pair "lateral" "view" ts
  | .StartWith, ts => syntaxes.connect_by_clause && list_end.opens_pair "start" "with" ts
  | .ConnectBy, ts => syntaxes.connect_by_clause && list_end.opens_pair "connect" "by" ts
  | .UsingSample, ts => syntaxes.using_sample && list_end.opens_pair "using" "sample" ts
  | .LockInShareMode, ts =>
    features.query_tail_syntax.locking_clauses && list_end.opens_pair "lock" "in" ts
  | .TableSample, ts => syntaxes.table_sample && peek_is_contextual_keyword "tablesample" ts
  | .Qualify, ts => syntaxes.qualify && peek_is_contextual_keyword "qualify" ts
  | .IndexedBy, ts => peek_opens_indexed_by_clause syntaxes ts
  | .UseIndex, ts => syntaxes.index_hints && peek_is_contextual_keyword "use" ts
  | .ForceIndex, ts => syntaxes.index_hints && peek_is_contextual_keyword "force" ts
  | .IgnoreIndex, ts => syntaxes.index_hints && peek_is_contextual_keyword "ignore" ts
  | .Pivot, ts => peek_pivot syntaxes ts
  | .Unpivot, ts => peek_unpivot syntaxes ts
  | .MatchRecognize, ts => peek_match_recognize syntaxes ts
  | clause, ts => peek_is_contextual_keyword clause.word ts

/-- The word of a clause, with what the clause requires behind it. What an expression, a table or
an assignment starts with is left to `starts`. -/
def Clause.opens : Clause → List Token → Bool
  | .Window, ts => list_end.peek_opens_window_clause features ts
  | .Settings, ts => list_end.peek_opens_settings_clause features ts
  | .Format, ts => list_end.peek_opens_format_clause features ts
  | .IndexedBy, ts =>
    peek_opens_indexed_by_clause syntaxes ts && peek_nth_is_contextual_keyword 1 "by" ts
  | .UseIndex, ts => Clause.leads features syntaxes .UseIndex ts && index_hint_keyword ts
  | .ForceIndex, ts => Clause.leads features syntaxes .ForceIndex ts && index_hint_keyword ts
  | .IgnoreIndex, ts => Clause.leads features syntaxes .IgnoreIndex ts && index_hint_keyword ts
  | .LateralView, ts => Clause.leads features syntaxes .LateralView ts
  | .StartWith, ts => Clause.leads features syntaxes .StartWith ts
  | .ConnectBy, ts => Clause.leads features syntaxes .ConnectBy ts
  | .UsingSample, ts => Clause.leads features syntaxes .UsingSample ts
  | .LockInShareMode, ts => Clause.leads features syntaxes .LockInShareMode ts
  | .Pivot, ts => peek_pivot syntaxes ts
  | .Unpivot, ts => peek_unpivot syntaxes ts
  | .MatchRecognize, ts => peek_match_recognize syntaxes ts
  | clause, ts => clause.leads features syntaxes ts && starts clause ts.tail

end

/-- The clauses behind a projection that has no `FROM` behind it. -/
def body_clauses : List Clause :=
  [.StartWith, .ConnectBy, .Window, .Qualify, .UsingSample, .Settings, .Format, .LockInShareMode]

/-- The operators behind a table, and the clauses behind the last one. -/
def table_clauses : List Clause := [.Pivot, .Unpivot, .MatchRecognize, .LateralView] ++ body_clauses

/-- The clauses that are read behind a position. -/
def Position.followers : Position → List Clause
  | .select_item | .wildcard | .qualified_wildcard => body_clauses
  | .base_table =>
    [.IndexedBy, .UseIndex, .ForceIndex, .IgnoreIndex, .TableSample] ++ table_clauses
  | .derived_table | .function => table_clauses
  | .target .Update => [.Set]
  | .target .Delete => [.Using, .Where, .Returning]
  | .target .Merge => [.Using]

/-- The clauses that a position asks for in front of an alias. -/
def Position.guarded : Position → List Clause
  | .select_item | .wildcard | .qualified_wildcard => [.Settings, .Format]
  | .base_table => [.Window, .Settings, .Format, .StartWith, .ConnectBy, .IndexedBy]
  | .derived_table => [.Window, .Settings, .Format, .StartWith, .ConnectBy]
  | .function => []
  | .target .Update => [.Set]
  | .target .Delete => [.Using, .Where, .Returning]
  | .target .Merge => [.Using]

/-- The clauses whose word alone a position takes for the clause, whatever stands behind it. -/
def Position.committed (syntaxes : AliasSyntax) : Position → List Clause
  | .base_table => if syntaxes.indexed_by then [.IndexedBy] else []
  | .target .Update => [.Set]
  | .target .Delete => [.Using, .Where, .Returning]
  | .target .Merge => [.Using]
  | _ => []

/-- The clause that is read behind a position where no alias stands. -/
def Position.next (features : FeatureSet) (syntaxes : AliasSyntax) (position : Position)
    (ts : List Token) : Option Clause :=
  position.followers.find? fun clause => clause.leads features syntaxes ts

/-- The test that an alias position makes for a clause. -/
def Clause.test (features : FeatureSet) (syntaxes : AliasSyntax) : Clause → List Token → Bool
  | .Window, ts => list_end.peek_opens_window_clause features ts
  | .Settings, ts => list_end.peek_opens_settings_clause features ts
  | .Format, ts => list_end.peek_opens_format_clause features ts
  | clause, ts => clause.leads features syntaxes ts

def Position.asks (features : FeatureSet) (syntaxes : AliasSyntax) (position : Position)
    (ts : List Token) : Bool :=
  position.guarded.any fun clause => clause.test features syntaxes ts

section
variable {features : FeatureSet} {syntaxes : AliasSyntax} {starts : Clause → List Token → Bool}
  {parse_data_type : ParseResult T} {position : Position} {clause : Clause} {ts : List Token}
  {t : Token} {word : String}

/-! ## What an alias position reads -/

@[simp] theorem optional_name_cons (means : Token → Option Name) :
    optional_token means (t :: ts) = .ok (means t, if (means t).isSome then ts else t :: ts) :=
  optional_token_apply means (t :: ts)

/-- A word that is not `AS` is left to the tests and to the name of the alias. -/
theorem optional_alias_cons (hspelled : spelled t = some word.toList) (has : word ≠ "as") :
    (parse_optional_alias features syntaxes : ParseResult (Alias T)) (t :: ts) =
      if Position.select_item.asks features syntaxes (t :: ts) then .ok (.absent, t :: ts)
      else (bare_label syntaxes t).elim (.ok (.absent, t :: ts)) fun name =>
        .ok (.named name .Bare, ts) := by
  rw [parse_optional_alias, eat_contextual_other hspelled has]
  cases hsettings : list_end.peek_opens_settings_clause features (t :: ts) <;>
  cases hformat : list_end.peek_opens_format_clause features (t :: ts) <;>
  cases hname : bare_label syntaxes t <;>
  simp [Position.asks, Position.guarded, Clause.test, hsettings, hformat, hname]

theorem optional_table_alias_cons {base_table : Bool}
    (hspelled : spelled t = some word.toList) (has : word ≠ "as") :
    (parse_optional_table_alias_impl features syntaxes base_table : ParseResult (Alias T)) (t :: ts) =
      if (if base_table then Position.base_table else .derived_table).asks features syntaxes (t :: ts)
      then .ok (.absent, t :: ts)
      else (bare_table_label features syntaxes t).elim (.ok (.absent, t :: ts)) fun name =>
        parse_alias_columns features syntaxes base_table name .Bare ts := by
  have hname : (do
      match ← optional_token (bare_table_label features syntaxes) with
      | some name => parse_alias_columns features syntaxes base_table name .Bare
      | none => return .absent : ParseResult (Alias T)) (t :: ts) =
      (bare_table_label features syntaxes t).elim (.ok (.absent, t :: ts)) fun name =>
        parse_alias_columns features syntaxes base_table name .Bare ts := by
    cases h : bare_table_label features syntaxes t <;> simp [h]
  have hierarchical : peek_opens_hierarchical_clause syntaxes (t :: ts) =
      (Clause.StartWith.leads features syntaxes (t :: ts) ||
        Clause.ConnectBy.leads features syntaxes (t :: ts)) := by
    rw [peek_opens_hierarchical_clause, Bool.and_or_distrib_left]
    rfl
  rw [parse_optional_table_alias_impl, eat_contextual_other hspelled has, if_neg Bool.false_ne_true]
  cases base_table with
  | true =>
    simp only [↓reduceIte, Position.asks, Position.guarded, List.any_cons, List.any_nil,
      Bool.or_false, Bool.or_eq_true, ite_or, Clause.test, ← hname]
    simp only [bind_apply, look_apply, bind_ok, ite_reader, pure_apply, Bool.true_and, hierarchical,
      Bool.or_eq_true, ite_or]
    rfl
  | false =>
    simp only [Bool.false_eq_true, ↓reduceIte, Position.asks, Position.guarded, List.any_cons,
      List.any_nil, Bool.or_false, Bool.or_eq_true, ite_or, Clause.test, ← hname]
    simp only [bind_apply, look_apply, bind_ok, ite_reader, pure_apply, Bool.false_and, hierarchical,
      Bool.or_eq_true, ite_or]
    rfl

theorem function_alias_cons (hspelled : spelled t = some word.toList) (has : word ≠ "as") :
    parse_function_alias_clause features syntaxes parse_data_type (t :: ts) =
      (column_ident features t).elim (.ok (.absent, t :: ts)) fun name =>
        finish_function_alias features syntaxes parse_data_type name .Bare ts := by
  rw [parse_function_alias_clause, eat_contextual_other hspelled has, if_neg Bool.false_ne_true]
  cases hname : column_ident features t <;> simp [hname]

theorem dml_alias_cons {stop_keywords : List String} (hspelled : spelled t = some word.toList)
    (has : word ≠ "as") :
    (parse_optional_dml_alias features stop_keywords : ParseResult (Alias T)) (t :: ts) =
      if word ∈ stop_keywords then .ok (.absent, t :: ts)
      else (column_ident features t).elim (.ok (.absent, t :: ts)) fun name =>
        .ok (.named name .Bare, ts) := by
  have hstop : (stop_keywords.any fun stop => token_is_contextual_keyword stop t) =
      decide (word ∈ stop_keywords) := by
    rw [Bool.eq_iff_iff, List.any_eq_true, decide_eq_true_iff]
    simp only [is_contextual_keyword hspelled, beq_iff_eq]
    exact exists_eq_right'
  rw [parse_optional_dml_alias, eat_contextual_other hspelled has, if_neg Bool.false_ne_true,
    bind_apply, optional_name_cons, bind_ok, target_label, hstop]
  by_cases hword : word ∈ stop_keywords
  · simp [hword]
  · cases column_ident features t <;> simp [hword]

/-- An alias position asks for its clauses, and takes a name for an alias where there is none. -/
theorem parse_alias_cons (hspelled : spelled t = some word.toList) (has : word ≠ "as")
    (haliased : position.aliased syntaxes = true) :
    position.parse_alias features syntaxes parse_data_type (t :: ts) =
      if position.asks features syntaxes (t :: ts) then .ok (.absent, t :: ts)
      else (position.bare_name features syntaxes t).elim (.ok (.absent, t :: ts)) fun name =>
        position.finish features syntaxes parse_data_type name ts := by
  cases position with
  | select_item => exact optional_alias_cons hspelled has
  | wildcard =>
    have hgate : syntaxes.wildcard_modifiers = true := haliased
    rw [Position.parse_alias, parse_gated_wildcard_alias, if_pos hgate]
    exact optional_alias_cons hspelled has
  | qualified_wildcard =>
    have hgate : syntaxes.qualified_wildcard_alias = true := haliased
    rw [Position.parse_alias, parse_gated_qualified_wildcard_alias, if_pos hgate]
    exact optional_alias_cons hspelled has
  | base_table => exact optional_table_alias_cons hspelled has
  | derived_table => exact optional_table_alias_cons hspelled has
  | function => exact function_alias_cons hspelled has
  | target mutation =>
    rw [Position.parse_alias, dml_alias_cons hspelled has]
    have hasks : Position.asks features syntaxes (.target mutation) (t :: ts) =
        decide (word ∈ mutation.stop_keywords) := by
      cases mutation <;>
      simp [Position.asks, Position.guarded, Clause.test, Clause.leads, Clause.word,
        Mutation.stop_keywords, peek_contextual_cons hspelled, Bool.beq_eq_decide_eq]
    rw [hasks]
    simp only [decide_eq_true_eq]
    rfl

/-! ## Clauses and their words -/

/-- The clauses behind a position have words of their own. -/
theorem word_injective {clause' : Clause} (h : clause ∈ position.followers)
    (h' : clause' ∈ position.followers) (hword : clause.word = clause'.word) :
    clause = clause' := by
  have hdistinct : ∀ c ∈ position.followers, ∀ c' ∈ position.followers,
      c.word = c'.word → c = c' := by
    cases position with
    | target mutation => cases mutation <;> decide
    | _ => decide +kernel
  exact hdistinct clause h clause' h' hword

theorem follows_of_guarded (h : clause ∈ position.guarded) : clause ∈ position.followers := by
  have hsubset : ∀ c ∈ position.guarded, c ∈ position.followers := by
    cases position with
    | target mutation => cases mutation <;> decide
    | _ => decide
  exact hsubset clause h

theorem leads_of_opens (h : clause.opens features syntaxes starts ts = true) :
    clause.leads features syntaxes ts = true := by
  cases clause with
  | Window =>
    simp only [Clause.opens, list_end.peek_opens_window_clause, Bool.and_eq_true] at h
    exact h.1.1
  | Settings =>
    simp only [Clause.opens, list_end.peek_opens_settings_clause, Bool.and_eq_true] at h
    exact Bool.and_eq_true_iff.mpr h.1.1
  | Format =>
    simp only [Clause.opens, list_end.peek_opens_format_clause, Bool.and_eq_true] at h
    exact Bool.and_eq_true_iff.mpr h.1
  | LateralView | StartWith | ConnectBy | UsingSample | LockInShareMode => exact h
  | Pivot | Unpivot | MatchRecognize => exact h
  | _ => exact (Bool.and_eq_true_iff.mp h).1

theorem peek_of_leads (h : clause.leads features syntaxes ts = true) :
    peek_is_contextual_keyword clause.word ts = true := by
  cases clause with
  | LateralView | StartWith | ConnectBy | UsingSample | LockInShareMode =>
    exact (Bool.and_eq_true_iff.mp (Bool.and_eq_true_iff.mp h).2).1
  | Pivot | Unpivot | MatchRecognize =>
    exact (Bool.and_eq_true_iff.mp (Bool.and_eq_true_iff.mp h).1).2
  | Window | Set | Using | Where | Returning => exact h
  | _ => exact (Bool.and_eq_true_iff.mp h).2

theorem test_of_opens (h : clause.opens features syntaxes starts ts = true) :
    clause.test features syntaxes ts = true := by
  cases clause with
  | Window | Settings | Format => exact h
  | _ => exact leads_of_opens h

theorem leads_of_test (h : clause.test features syntaxes ts = true) :
    clause.leads features syntaxes ts = true := by
  cases clause with
  | Window =>
    have hopens : Clause.Window.opens features syntaxes (fun _ _ => true) ts = true := h
    exact leads_of_opens hopens
  | Settings =>
    have hopens : Clause.Settings.opens features syntaxes (fun _ _ => true) ts = true := h
    exact leads_of_opens hopens
  | Format =>
    have hopens : Clause.Format.opens features syntaxes (fun _ _ => true) ts = true := h
    exact leads_of_opens hopens
  | _ => exact h

/-- The tests that a position makes are exact, or the position goes by the word alone. -/
theorem guarded_exact (position : Position) :
    ∀ clause ∈ position.guarded,
      clause ∈ [.Window, .Settings, .Format, .StartWith, .ConnectBy] ∨
        clause = .IndexedBy ∧ position = .base_table ∨ clause ∈ position.committed .SQLITE ∧
          position ≠ .base_table := by
  cases position with
  | target mutation => cases mutation <;> decide
  | _ => decide

/-- A position asks for no more than what a clause requires, but for the clauses it takes by their
word. -/
theorem opens_of_test (hguarded : clause ∈ position.guarded)
    (hcommitted : clause ∉ position.committed syntaxes)
    (h : clause.test features syntaxes ts = true) :
    clause.opens features syntaxes starts ts = true := by
  obtain hexact | ⟨rfl, rfl⟩ | ⟨hword, hposition⟩ := guarded_exact position clause hguarded
  · simp only [List.mem_cons, List.not_mem_nil, or_false] at hexact
    obtain rfl | rfl | rfl | rfl | rfl := hexact
    all_goals exact h
  · have hgate : syntaxes.indexed_by = true := (Bool.and_eq_true_iff.mp h).1
    simp [Position.committed, hgate] at hcommitted
  · have hsame : position.committed .SQLITE = position.committed syntaxes := by
      cases position with
      | base_table => exact absurd rfl hposition
      | target mutation => cases mutation <;> rfl
      | _ => rfl
    rw [hsame] at hword
    exact absurd hword hcommitted

/-- In front of the word of a clause, no other clause is asked for. -/
theorem asks_iff (hspelled : spelled t = some clause.word.toList)
    (hfollows : clause ∈ position.followers) :
    position.asks features syntaxes (t :: ts) = true ↔
      clause ∈ position.guarded ∧ clause.test features syntaxes (t :: ts) = true := by
  rw [Position.asks, List.any_eq_true]
  constructor
  · rintro ⟨other, hguarded, htest⟩
    have hpeek := peek_of_leads (leads_of_test htest)
    rw [peek_contextual_cons hspelled, beq_iff_eq] at hpeek
    have hsame := word_injective hfollows (follows_of_guarded hguarded) hpeek
    subst hsame
    exact ⟨hguarded, htest⟩
  · rintro ⟨hguarded, htest⟩
    exact ⟨clause, hguarded, htest⟩

/-- The clause that opens behind a position is the one that is read. -/
theorem next_of_opens (hspelled : spelled t = some clause.word.toList)
    (hfollows : clause ∈ position.followers)
    (h : clause.opens features syntaxes starts (t :: ts) = true) :
    position.next features syntaxes (t :: ts) = some clause := by
  have hsome : (position.next features syntaxes (t :: ts)).isSome = true := by
    rw [Position.next, List.find?_isSome]
    exact ⟨clause, hfollows, leads_of_opens h⟩
  obtain ⟨found, hfound⟩ := Option.isSome_iff_exists.mp hsome
  have hleads : found.leads features syntaxes (t :: ts) = true := by
    rw [Position.next] at hfound
    have hleads := List.find?_some hfound
    exact hleads
  have hpeek := peek_of_leads hleads
  rw [peek_contextual_cons hspelled, beq_iff_eq] at hpeek
  rw [hfound, word_injective hfollows (List.mem_of_find?_eq_some hfound) hpeek]

theorem word_ne_as (clause : Clause) : clause.word ≠ "as" := by
  cases clause <;> decide

/-- Behind its name, an alias goes on at a parenthesis only. -/
theorem finish_named {name : Name} (h : peek_is_punct .LParen ts = false) :
    position.finish features syntaxes parse_data_type name ts = .ok (.named name .Bare, ts) := by
  cases position with
  | base_table | derived_table => simp [Position.finish, parse_alias_columns, h]
  | function => simp [Position.finish, finish_function_alias, h]
  | _ => rfl

/-! ## Clauses against aliases -/

/-- A clause is read as the clause, and no alias in front of it. -/
def ReadAsClause (features : FeatureSet) (syntaxes : AliasSyntax)
    (starts : Clause → List Token → Bool) (parse_data_type : ParseResult T) (position : Position)
    (clause : Clause) (ts : List Token) : Prop :=
  clause.opens features syntaxes starts ts = true →
    position.parse_alias features syntaxes parse_data_type ts = .ok (.absent, ts) ∧
      position.next features syntaxes ts = some clause

/-- The word of a clause, without what the clause requires behind it, is an alias. -/
def ReadAsAlias (features : FeatureSet) (syntaxes : AliasSyntax)
    (starts : Clause → List Token → Bool) (parse_data_type : ParseResult T) (position : Position)
    (clause : Clause) (ts : List Token) : Prop :=
  clause.opens features syntaxes starts ts = false →
    ∀ name, ts.head?.bind (position.bare_name features syntaxes) = some name →
      position.parse_alias features syntaxes parse_data_type ts =
        position.finish features syntaxes parse_data_type name ts.tail ∧
      (peek_is_punct .LParen ts.tail = false →
        position.parse_alias features syntaxes parse_data_type ts =
          .ok (.named name .Bare, ts.tail))

/-- A clause that its position asks for, or whose word is no name there, is read as the clause. The
word of a clause without what the clause requires is the alias, unless the position goes by the
word. -/
theorem contextual_clause_spared (hspelled : spelled t = some clause.word.toList)
    (haliased : position.aliased syntaxes = true) (hfollows : clause ∈ position.followers) :
    (clause ∈ position.guarded ∨ position.bare_name features syntaxes t = none →
      ReadAsClause features syntaxes starts parse_data_type position clause (t :: ts)) ∧
    (clause ∉ position.committed syntaxes →
      ReadAsAlias features syntaxes starts parse_data_type position clause (t :: ts)) := by
  constructor
  · intro htold hopens
    refine ⟨?_, next_of_opens hspelled hfollows hopens⟩
    rw [parse_alias_cons hspelled (word_ne_as clause) haliased]
    obtain hguarded | hname := htold
    · have hasks : position.asks features syntaxes (t :: ts) = true :=
        (asks_iff hspelled hfollows).mpr ⟨hguarded, test_of_opens hopens⟩
      rw [if_pos hasks]
    · rw [hname, Option.elim_none, ite_self]
  · intro hcommitted hopens name hname
    have hasks : ¬ position.asks features syntaxes (t :: ts) = true := by
      rw [asks_iff hspelled hfollows]
      rintro ⟨hguarded, htest⟩
      rw [opens_of_test hguarded hcommitted htest] at hopens
      cases hopens
    have halias : position.parse_alias features syntaxes parse_data_type (t :: ts) =
        position.finish features syntaxes parse_data_type name ts := by
      have hbare : position.bare_name features syntaxes t = some name := hname
      rw [parse_alias_cons hspelled (word_ne_as clause) haliased, if_neg hasks, hbare]
      rfl
    refine ⟨halias, ?_⟩
    intro hparen
    rw [halias]
    exact finish_named hparen

/-- Behind `FROM t`, SQLite reads `WINDOW w AS (…)` as the clause, and `window` alone as an
alias. -/
theorem contextual_clause_window :
    ReadAsClause .SQLITE .SQLITE (fun _ _ => true) (fail "" : ParseResult Unit) .base_table .Window
        [.word "window".toList, .word "w".toList, .keyword .As, .lparen, .rparen] ∧
      ReadAsAlias .SQLITE .SQLITE (fun _ _ => true) (fail "" : ParseResult Unit) .base_table .Window
        [.word "window".toList] :=
  ⟨(contextual_clause_spared (by rfl) (by rfl) (by decide)).1 (.inl (by decide)),
    (contextual_clause_spared (by rfl) (by rfl) (by decide)).2 (by decide)⟩

/-- Behind `FROM t`, SQLite reads `indexed` as the start of a clause even alone. -/
theorem bare_indexed_no_alias :
    ¬ (ReadAsClause .SQLITE .SQLITE (fun _ _ => true) (fail "" : ParseResult Unit) .base_table
        .IndexedBy [.word "indexed".toList] ∧
      ReadAsAlias .SQLITE .SQLITE (fun _ _ => true) (fail "" : ParseResult Unit) .base_table
        .IndexedBy [.word "indexed".toList]) := by
  rintro ⟨-, halias⟩
  obtain ⟨-, hnamed⟩ := halias (by rfl) (.ident (.Word "indexed".toList)) (by decide +kernel)
  have hread : Position.base_table.parse_alias .SQLITE .SQLITE (fail "" : ParseResult Unit)
      [.word "indexed".toList] = .ok (.absent, [.word "indexed".toList]) := by
    decide +kernel
  rw [hread] at hnamed
  cases hnamed (by rfl)

end

end squonk.parser.clause.bare_alias
