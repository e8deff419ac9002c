import Squonk.Dialect.Presets
import Squonk.Parser.Clause.Words

/-!
# Where a list of a `SELECT` ends

Behind a comma, before a projection that may be empty and behind `GROUP BY ALL`, the parser asks
whether the list has ended. It asks for words listed by hand. The clauses that can follow the list
are read elsewhere, each behind a gate and a test of its own.
-/

open squonk.ast squonk.tokenizer squonk.dialect listing listing.Reader

namespace squonk.parser.clause.list_end

/-- The gates of the lists of a `SELECT` and of the clauses behind them. -/
structure BodySyntax where
  trailing_comma : Bool
  empty_target_list : Bool
  select_into : Bool
  lateral_view_clause : Bool
  connect_by_clause : Bool
  qualify : Bool
  using_sample : Bool
  group_by_all : Bool
  group_by_set_quantifier : Bool
  with_rollup : Bool
  deriving DecidableEq

namespace BodySyntax

def DUCKDB : BodySyntax where
  trailing_comma := true
  empty_target_list := false
  select_into := true
  lateral_view_clause := false
  connect_by_clause := false
  qualify := true
  using_sample := true
  group_by_all := true
  group_by_set_quantifier := false
  with_rollup := false

def LENIENT : BodySyntax where
  trailing_comma := true
  empty_target_list := true
  select_into := true
  lateral_view_clause := true
  connect_by_clause := true
  qualify := true
  using_sample := true
  group_by_all := true
  group_by_set_quantifier := true
  with_rollup := true

end BodySyntax

/-! ## The words that end a list -/

def target_list_words : List String :=
  ["into", "from", "where", "group", "having", "window", "order", "limit", "offset", "fetch",
   "union", "intersect", "except"]

def group_by_words : List String :=
  ["having", "window", "qualify", "using", "order", "limit", "offset", "fetch", "union",
   "intersect", "except"]

/-- The end of the tokens, or the `;` or `)` behind a query. -/
def at_terminator : List Token → Bool
  | [] | .punctuation .Semicolon :: _ | .rparen :: _ => true
  | _ => false

def at_empty_target_list (ts : List Token) : Bool :=
  at_terminator ts || target_list_words.any fun word => peek_is_contextual_keyword word ts

def at_group_by_end_after (offset : Nat) (ts : List Token) : Bool :=
  at_terminator (ts.drop offset) ||
    group_by_words.any fun word => peek_is_contextual_keyword word (ts.drop offset)

def at_group_by_end : List Token → Bool := at_group_by_end_after 0

/-! ## The lists -/

variable {α E : Type}

section
variable (syntaxes : BodySyntax)

/-- What stands behind an item: a comma with an item behind it, or the end of the list. -/
def trailing_turn (at_close : List Token → Bool) (item : ParseResult α) :
    ParseResult (Option α) := do
  if ← accept (· == .comma) then
    if syntaxes.trailing_comma && (← look at_close) then
      return none
    else
      return some (← item)
  else
    return none

def parse_comma_separated_trailing (item : ParseResult α) (at_close : List Token → Bool) :
    ParseResult (List α) := do
  let head ← item
  return head :: (← many (trailing_turn syntaxes at_close item))

inductive SelectDistinct | All | Distinct | On
  deriving DecidableEq

def empty_allowed (distinct : Option SelectDistinct) : Bool :=
  syntaxes.empty_target_list && (distinct == none || distinct == some .All)

def parse_projection (item : ParseResult α) (distinct : Option SelectDistinct) :
    ParseResult (List α) := do
  if empty_allowed syntaxes distinct && (← look at_empty_target_list) then
    return []
  else
    parse_comma_separated_trailing syntaxes item at_empty_target_list

inductive GroupByItem (E : Type)
  | Expr (expr : E)
  | Rollup (exprs : List E)
  | Cube (exprs : List E)
  | GroupingSets (sets : List (List E))
  deriving DecidableEq

def GroupByItem.plain : GroupByItem E → Option E
  | .Expr expr => some expr
  | _ => none

inductive SetQuantifier | All | Distinct
  deriving DecidableEq

inductive GroupByAllSpelling | Keyword | Star
  deriving DecidableEq

structure GroupByBody (E : Type) where
  items : List (GroupByItem E)
  quantifier : Option SetQuantifier
  all : Option GroupByAllSpelling
  deriving DecidableEq

def wrap_with_rollup (items : List (GroupByItem E)) : ParseResult (List (GroupByItem E)) := do
  if syntaxes.with_rollup && (← look fun ts =>
      peek_is_contextual_keyword "with" ts && peek_nth_is_contextual_keyword 1 "rollup" ts) then
    match items.mapM GroupByItem.plain with
    | some exprs =>
      advance
      advance
      return [.Rollup exprs]
    | none => fail "a plain grouping expression before `WITH ROLLUP`"
  else
    return items

def parse_group_by_list (item : ParseResult (GroupByItem E)) :
    ParseResult (List (GroupByItem E)) := do
  wrap_with_rollup syntaxes (← parse_comma_separated_trailing syntaxes item at_group_by_end)

def parse_group_by_body (item : ParseResult (GroupByItem E)) : ParseResult (GroupByBody E) := do
  if ← (if syntaxes.group_by_set_quantifier then eat_contextual_keyword "distinct"
      else return false) then
    return ⟨← parse_group_by_list syntaxes item, some .Distinct, none⟩
  else if syntaxes.group_by_all && (← look fun ts =>
      ts.head? == some (.operator .Star) && at_group_by_end_after 1 ts) then
    advance
    return ⟨[], none, some .Star⟩
  else if ← look (peek_is_contextual_keyword "all") then
    if syntaxes.group_by_all && (← look (at_group_by_end_after 1)) then
      advance
      return ⟨[], none, some .Keyword⟩
    else if syntaxes.group_by_set_quantifier then
      advance
      return ⟨← parse_group_by_list syntaxes item, some .All, none⟩
    else
      return ⟨← parse_group_by_list syntaxes item, none, none⟩
  else
    return ⟨← parse_group_by_list syntaxes item, none, none⟩

end

/-! ## The clauses behind a list -/

/-- A clause of a `SELECT` or of the tail of its query. -/
inductive Clause
  | Into | From | LateralView | Where | StartWith | ConnectBy | GroupBy | WithRollup | Having
  | Window | Qualify | UsingSample | Union | Intersect | Except | OrderBy | Limit | Offset | Fetch
  | Settings | Format | ForLocking | LockInShareMode | Pipe | ForXmlJson
  deriving DecidableEq

/-- The word a clause starts with. -/
def Clause.word : Clause → Option String
  | .Into => some "into" | .From => some "from" | .LateralView => some "lateral"
  | .Where => some "where" | .StartWith => some "start" | .ConnectBy => some "connect"
  | .GroupBy => some "group" | .WithRollup => some "with" | .Having => some "having"
  | .Window => some "window" | .Qualify => some "qualify" | .UsingSample => some "using"
  | .Union => some "union" | .Intersect => some "intersect" | .Except => some "except"
  | .OrderBy => some "order" | .Limit => some "limit" | .Offset => some "offset"
  | .Fetch => some "fetch" | .Settings => some "settings" | .Format => some "format"
  | .ForLocking | .ForXmlJson => some "for" | .LockInShareMode => some "lock" | .Pipe => none

section
variable (features : FeatureSet) (syntaxes : BodySyntax)

/-- Whether an item could start with the first token as its name. -/
def names_item (ts : List Token) : Bool :=
  ts.head?.any fun t => (expr.column_name features t).isSome

/-- A word that opens its clause alone, where it is no name. -/
def opens_alone (word : String) (ts : List Token) : Bool :=
  peek_is_contextual_keyword word ts && !names_item features ts

/-- Two words that open a clause. -/
def opens_pair (first second : String) (ts : List Token) : Bool :=
  peek_is_contextual_keyword first ts && peek_nth_is_contextual_keyword 1 second ts

def for_clause_leads (ts : List Token) : Bool :=
  features.query_tail_syntax.for_xml_json_clause && peek_is_contextual_keyword "for" ts &&
    (peek_nth_is_contextual_keyword 1 "xml" ts || peek_nth_is_contextual_keyword 1 "json" ts)

def peek_opens_window_clause (ts : List Token) : Bool :=
  peek_is_contextual_keyword "window" ts && names_item features (ts.drop 1) &&
    peek_nth_is_contextual_keyword 2 "as" ts

def peek_opens_settings_clause (ts : List Token) : Bool :=
  features.query_tail_syntax.settings_clause && peek_is_contextual_keyword "settings" ts &&
    names_item features (ts.drop 1) && ts[2]? == some (.operator .Eq)

/-- The name of a format: a column name, or `NULL`. -/
def format_name (t : Token) : Bool :=
  (expr.column_name features t).isSome || t == .keyword .Null

def peek_opens_format_clause (ts : List Token) : Bool :=
  features.query_tail_syntax.format_clause && peek_is_contextual_keyword "format" ts &&
    ts[1]?.any (format_name features)

/-- The test that the reader of a clause makes, and where the word of the clause is a name too, the
test that tells the clause from it. -/
def Clause.opens : Clause → List Token → Bool
  | .Into, ts => syntaxes.select_into && opens_alone features "into" ts
  | .From, ts => opens_alone features "from" ts
  | .LateralView, ts => syntaxes.lateral_view_clause && opens_pair "lateral" "view" ts
  | .Where, ts => opens_alone features "where" ts
  | .StartWith, ts => syntaxes.connect_by_clause && opens_pair "start" "with" ts
  | .ConnectBy, ts => syntaxes.connect_by_clause && opens_pair "connect" "by" ts
  | .GroupBy, ts => opens_alone features "group" ts
  | .WithRollup, ts => syntaxes.with_rollup && opens_pair "with" "rollup" ts
  | .Having, ts => opens_alone features "having" ts
  | .Window, ts => opens_alone features "window" ts || peek_opens_window_clause features ts
  | .Qualify, ts => syntaxes.qualify && opens_alone features "qualify" ts
  | .UsingSample, ts => syntaxes.using_sample && opens_pair "using" "sample" ts
  | .Union, ts => opens_alone features "union" ts
  | .Intersect, ts => opens_alone features "intersect" ts
  | .Except, ts => opens_alone features "except" ts
  | .OrderBy, ts => opens_alone features "order" ts
  | .Limit, ts => opens_alone features "limit" ts
  | .Offset, ts => features.query_tail_syntax.leading_offset && opens_alone features "offset" ts
  | .Fetch, ts => features.query_tail_syntax.fetch_first && opens_alone features "fetch" ts
  | .Settings, ts => peek_opens_settings_clause features ts
  | .Format, ts => peek_opens_format_clause features ts
  | .ForLocking, ts =>
    features.query_tail_syntax.locking_clauses && opens_alone features "for" ts &&
      !for_clause_leads features ts
  | .LockInShareMode, ts => features.query_tail_syntax.locking_clauses && opens_pair "lock" "in" ts
  | .Pipe, ts =>
    features.query_tail_syntax.pipe_syntax && ts.head? == some (.operator .PipeArrow)
  | .ForXmlJson, ts => for_clause_leads features ts

end

/-- The places behind which a list may have ended. A projection in front of its `FROM` and one
behind it have different clauses behind them. -/
inductive Place | projection (from_first : Bool) | grouping | grouping_all
  deriving DecidableEq

/-- The set operators and the clauses of the query behind a `SELECT`. -/
def query_tail : List Clause :=
  [.Union, .Intersect, .Except, .OrderBy, .Limit, .Offset, .Fetch, .Settings, .Format, .ForLocking,
   .LockInShareMode, .Pipe, .ForXmlJson]

/-- The clauses that are read behind the list of a place. -/
def Place.followers : Place → List Clause
  | .projection false =>
    [.Into, .From, .Where, .StartWith, .ConnectBy, .GroupBy, .Having, .Window, .Qualify,
     .UsingSample] ++ query_tail
  | .projection true =>
    [.LateralView, .Where, .StartWith, .ConnectBy, .GroupBy, .Having, .Window, .Qualify,
     .UsingSample] ++ query_tail
  | .grouping => [.WithRollup, .Having, .Window, .Qualify, .UsingSample] ++ query_tail
  | .grouping_all => [.Having, .Window, .Qualify, .UsingSample] ++ query_tail

section
variable (features : FeatureSet) (syntaxes : BodySyntax) (context : List String)

/-- The end of a query: a terminator, or a word with which the statement around it goes on. -/
def ends_query (ts : List Token) : Bool :=
  at_terminator ts || context.any fun word => opens_alone features word ts

/-- Whether the tokens begin what may follow the list of a place. -/
def may_follow (place : Place) (ts : List Token) : Bool :=
  ends_query features context ts ||
    place.followers.any fun clause => clause.opens features syntaxes ts

end

/-- The words that are asked for behind a place. -/
def Place.words : Place → List String
  | .projection _ => target_list_words
  | .grouping | .grouping_all => group_by_words

def Place.at_end (place : Place) (ts : List Token) : Bool :=
  at_terminator ts || place.words.any fun word => peek_is_contextual_keyword word ts

/-- The clauses that are read behind the list of a place, and that no word is asked for. -/
def Place.overlooked : Place → List Clause
  | .projection false =>
    [.StartWith, .ConnectBy, .Qualify, .UsingSample, .Settings, .Format, .ForLocking,
     .LockInShareMode, .Pipe, .ForXmlJson]
  | .projection true =>
    [.LateralView, .StartWith, .ConnectBy, .Qualify, .UsingSample, .Settings, .Format, .ForLocking,
     .LockInShareMode, .Pipe, .ForXmlJson]
  | .grouping =>
    [.WithRollup, .Settings, .Format, .ForLocking, .LockInShareMode, .Pipe, .ForXmlJson]
  | .grouping_all => [.Settings, .Format, .ForLocking, .LockInShareMode, .Pipe, .ForXmlJson]

section
variable {features : FeatureSet} {syntaxes : BodySyntax} {context : List String}
  {ts : List Token} {place : Place}

/-- The tokens open a clause that no word is asked for, or go on with the statement around. -/
def Overlooked (features : FeatureSet) (syntaxes : BodySyntax) (context : List String)
    (place : Place) (ts : List Token) : Prop :=
  (∃ clause ∈ place.overlooked, clause.opens features syntaxes ts = true) ∨
    ∃ word ∈ context, word ∉ place.words ∧ opens_alone features word ts = true

/-- The tokens start with a word that is asked for and opens nothing: its clause is not in the
dialect or not behind this list, or the word may be a name. -/
def Misjudged (features : FeatureSet) (syntaxes : BodySyntax) (context : List String)
    (place : Place) (ts : List Token) : Prop :=
  ∃ word ∈ place.words, peek_is_contextual_keyword word ts = true ∧
    ¬ (word ∈ context ∧ names_item features ts = false) ∧
    ∀ clause ∈ place.followers, clause.word = some word →
      clause.opens features syntaxes ts = false

/-! ## Clauses and their words -/

theorem peek_unique {word word' : String} (h : peek_is_contextual_keyword word ts = true)
    (h' : peek_is_contextual_keyword word' ts = true) : word = word' := by
  cases ts with
  | nil => cases h
  | cons t ts =>
    have hspelled : spelled t = some word.toList := beq_iff_eq.mp h
    rw [peek_contextual_cons hspelled] at h'
    exact beq_iff_eq.mp h'

theorem not_terminator_of_peek {word : String} (h : peek_is_contextual_keyword word ts = true) :
    at_terminator ts = false := by
  cases ts with
  | nil => cases h
  | cons t ts =>
    cases t with
    | punctuation punct => cases h
    | _ => rfl

theorem peek_of_opens_alone {word : String} (h : opens_alone features word ts = true) :
    peek_is_contextual_keyword word ts = true :=
  (Bool.and_eq_true_iff.mp h).1

/-- A clause opens with its word. -/
theorem peek_of_opens {clause : Clause} (h : clause.opens features syntaxes ts = true)
    {word : String} (hword : clause.word = some word) :
    peek_is_contextual_keyword word ts = true := by
  cases clause <;> cases hword <;>
    simp only [Clause.opens, opens_alone, opens_pair, peek_opens_window_clause,
      peek_opens_settings_clause, peek_opens_format_clause, for_clause_leads, Bool.and_eq_true,
      Bool.or_eq_true] at h <;> tauto

theorem word_of_opens {clause : Clause} (h : clause.opens features syntaxes ts = true)
    {word : String} (hpeek : peek_is_contextual_keyword word ts = true) :
    clause.word = some word := by
  cases hword : clause.word with
  | some own => rw [peek_unique (peek_of_opens h hword) hpeek]
  | none =>
    have hpipe : clause = .Pipe := by cases clause <;> first | rfl | cases hword
    subst hpipe
    have hhead := beq_iff_eq.mp (Bool.and_eq_true_iff.mp h).2
    rw [peek_is_contextual_keyword, hhead] at hpeek
    cases hpeek

theorem not_terminator_of_opens {clause : Clause} (h : clause.opens features syntaxes ts = true) :
    at_terminator ts = false := by
  cases hword : clause.word with
  | some word => exact not_terminator_of_peek (peek_of_opens h hword)
  | none =>
    have hpipe : clause = .Pipe := by cases clause <;> first | rfl | cases hword
    subst hpipe
    have hhead := beq_iff_eq.mp (Bool.and_eq_true_iff.mp h).2
    cases ts with
    | nil => cases hhead
    | cons t ts =>
      cases hhead
      rfl

/-! ## The words against the clauses -/

theorem overlooked_subset (place : Place) : ∀ clause ∈ place.overlooked,
    clause ∈ place.followers := by
  cases place with
  | projection from_first => cases from_first <;> decide
  | grouping => decide
  | grouping_all => decide

theorem overlooked_word (place : Place) : ∀ clause ∈ place.overlooked, ∀ word ∈ place.words,
    clause.word ≠ some word := by
  cases place with
  | projection from_first => cases from_first <;> decide
  | grouping => decide
  | grouping_all => decide

theorem follower_word (place : Place) : ∀ clause ∈ place.followers,
    clause ∈ place.overlooked ∨ ∃ word ∈ place.words, clause.word = some word := by
  cases place with
  | projection from_first => cases from_first <;> decide
  | grouping => decide
  | grouping_all => decide

theorem at_end_iff : place.at_end ts = true ↔
    at_terminator ts = true ∨ ∃ word ∈ place.words, peek_is_contextual_keyword word ts = true := by
  rw [Place.at_end, Bool.or_eq_true, List.any_eq_true]

theorem may_follow_iff : may_follow features syntaxes context place ts = true ↔
    (at_terminator ts = true ∨ ∃ word ∈ context, opens_alone features word ts = true) ∨
      ∃ clause ∈ place.followers, clause.opens features syntaxes ts = true := by
  rw [may_follow, ends_query, Bool.or_eq_true, Bool.or_eq_true, List.any_eq_true, List.any_eq_true]

/-- A list is ended where the words say so exactly where something follows it, unless a clause is
overlooked or a word is misjudged. -/
theorem at_end_exact_iff :
    (place.at_end ts = true ↔ may_follow features syntaxes context place ts = true) ↔
      ¬ Overlooked features syntaxes context place ts ∧
        ¬ Misjudged features syntaxes context place ts := by
  rw [at_end_iff, may_follow_iff]
  constructor
  · intro hexact
    constructor
    · rintro (⟨clause, hclause, hopens⟩ | ⟨word, hword, hlisted, hopens⟩)
      · obtain hend | ⟨word, hword, hpeek⟩ :=
          hexact.mpr (.inr ⟨clause, overlooked_subset place clause hclause, hopens⟩)
        · rw [not_terminator_of_opens hopens] at hend
          cases hend
        · exact overlooked_word place clause hclause word hword (word_of_opens hopens hpeek)
      · have hpeek := peek_of_opens_alone hopens
        obtain hend | ⟨own, hown, hpeek'⟩ := hexact.mpr (.inl (.inr ⟨word, hword, hopens⟩))
        · rw [not_terminator_of_peek hpeek] at hend
          cases hend
        · rw [peek_unique hpeek hpeek'] at hlisted
          exact hlisted hown
    · rintro ⟨word, hword, hpeek, hcontext, hclosed⟩
      obtain (hend | ⟨own, hown, hopens⟩) | ⟨clause, hclause, hopens⟩ :=
        hexact.mp (.inr ⟨word, hword, hpeek⟩)
      · rw [not_terminator_of_peek hpeek] at hend
        cases hend
      · rw [peek_unique (peek_of_opens_alone hopens) hpeek] at hown
        refine hcontext ⟨hown, ?_⟩
        simpa using (Bool.and_eq_true_iff.mp hopens).2
      · rw [hclosed clause hclause (word_of_opens hopens hpeek)] at hopens
        cases hopens
  · rintro ⟨hoverlooked, hmisjudged⟩
    constructor
    · rintro (hend | ⟨word, hword, hpeek⟩)
      · exact .inl (.inl hend)
      · by_contra hnone
        refine hmisjudged ⟨word, hword, hpeek, ?_, ?_⟩
        · rintro ⟨hcontext, hname⟩
          refine hnone (.inl (.inr ⟨word, hcontext, ?_⟩))
          rw [opens_alone, hpeek, hname]
          rfl
        · intro clause hclause _
          cases hopens : clause.opens features syntaxes ts with
          | false => rfl
          | true => exact absurd (.inr ⟨clause, hclause, hopens⟩) hnone
    · rintro ((hend | ⟨word, hword, hopens⟩) | ⟨clause, hclause, hopens⟩)
      · exact .inl hend
      · by_cases hlisted : word ∈ place.words
        · exact .inr ⟨word, hlisted, peek_of_opens_alone hopens⟩
        · exact absurd (.inr ⟨word, hword, hlisted, hopens⟩) hoverlooked
      · obtain hover | ⟨word, hlisted, hword⟩ := follower_word place clause hclause
        · exact absurd (.inl ⟨clause, hover, hopens⟩) hoverlooked
        · exact .inr ⟨word, hlisted, peek_of_opens hopens hword⟩

end

/-! ## The lists against the clauses -/

/-- Where the parser asks whether a list has ended: behind a comma, in front of a projection that
may be empty, and behind the `ALL` or `*` of `GROUP BY`. -/
inductive Moment
  | projection_comma (from_first : Bool)
  | empty_projection (from_first : Bool)
  | grouping_comma
  | grouping_all (spelling : GroupByAllSpelling)
  deriving DecidableEq

def Moment.place : Moment → Place
  | .projection_comma from_first | .empty_projection from_first => .projection from_first
  | .grouping_comma => .grouping
  | .grouping_all _ => .grouping_all

/-- Whether the dialect lets the list end there. -/
def Moment.tolerated (syntaxes : BodySyntax) : Moment → Bool
  | .projection_comma _ | .grouping_comma => syntaxes.trailing_comma
  | .empty_projection _ => syntaxes.empty_target_list
  | .grouping_all _ => syntaxes.group_by_all

/-- The parser takes the list as ended in front of `ts`. -/
def Moment.Ends (syntaxes : BodySyntax) (select_item : ParseResult α)
    (group_by_item : ParseResult (GroupByItem E)) (ts : List Token) : Moment → Prop
  | .projection_comma _ =>
    trailing_turn syntaxes at_empty_target_list select_item (.comma :: ts) = .ok (none, ts)
  | .empty_projection _ => ∀ distinct, empty_allowed syntaxes distinct = true →
    parse_projection syntaxes select_item distinct ts = .ok ([], ts)
  | .grouping_comma =>
    trailing_turn syntaxes at_group_by_end group_by_item (.comma :: ts) = .ok (none, ts)
  | .grouping_all .Keyword =>
    parse_group_by_body syntaxes group_by_item (.keyword .All :: ts) =
      .ok (⟨[], none, some .Keyword⟩, ts)
  | .grouping_all .Star =>
    parse_group_by_body syntaxes group_by_item (.operator .Star :: ts) =
      .ok (⟨[], none, some .Star⟩, ts)

variable {features : FeatureSet} {syntaxes : BodySyntax} {context : List String}
  {ts : List Token} {select_item item : ParseResult α}
  {group_by_item : ParseResult (GroupByItem E)}

theorem trailing_turn_ends {at_close : List Token → Bool} (h : syntaxes.trailing_comma = true) :
    trailing_turn syntaxes at_close item (.comma :: ts) = .ok (none, ts) ↔ at_close ts = true := by
  have hturn : trailing_turn syntaxes at_close item (.comma :: ts) =
      if at_close ts then .ok (none, ts) else (do return some (← item) : ParseResult _) ts := by
    simp [trailing_turn, h]
  rw [hturn]
  cases at_close ts with
  | true => exact iff_of_true rfl rfl
  | false =>
    refine iff_of_false ?_ Bool.false_ne_true
    intro hnone
    obtain ⟨⟨_, _⟩, _, heq⟩ := bind_eq_ok.mp hnone
    cases heq

/-- A list that is read has an item. -/
theorem comma_separated_ne_nil {at_close : List Token → Bool} {rest : List Token} :
    parse_comma_separated_trailing syntaxes item at_close ts ≠ .ok ([], rest) := by
  intro h
  obtain ⟨⟨_, _⟩, _, h⟩ := bind_eq_ok.mp h
  obtain ⟨⟨_, _⟩, _, h⟩ := bind_eq_ok.mp h
  cases h

theorem group_by_list_ne_all {all : GroupByAllSpelling} {quantifier : Option SetQuantifier}
    {rest : List Token} :
    (do return ⟨← parse_group_by_list syntaxes group_by_item, quantifier, none⟩ :
      ParseResult (GroupByBody E)) ts ≠ .ok (⟨[], none, some all⟩, rest) := by
  intro h
  obtain ⟨⟨_, _⟩, _, h⟩ := bind_eq_ok.mp h
  cases h

theorem projection_eq_nil {distinct : Option SelectDistinct}
    (h : empty_allowed syntaxes distinct = true) :
    parse_projection syntaxes select_item distinct ts = .ok ([], ts) ↔
      at_empty_target_list ts = true := by
  rw [parse_projection, bind_apply, look_apply, bind_ok, h, Bool.true_and]
  cases at_empty_target_list ts with
  | true => exact iff_of_true rfl rfl
  | false => exact iff_of_false comma_separated_ne_nil Bool.false_ne_true

theorem group_by_star (h : syntaxes.group_by_all = true) :
    parse_group_by_body syntaxes group_by_item (.operator .Star :: ts) =
      .ok (⟨[], none, some .Star⟩, ts) ↔ at_group_by_end ts = true := by
  have hafter : at_group_by_end_after 1 (.operator .Star :: ts) = at_group_by_end ts := rfl
  have hdistinct : (if syntaxes.group_by_set_quantifier then eat_contextual_keyword "distinct"
      else return false : ParseResult Bool) (.operator .Star :: ts) =
      .ok (false, .operator .Star :: ts) := by
    cases syntaxes.group_by_set_quantifier <;> rfl
  rw [parse_group_by_body, bind_apply, hdistinct, bind_ok, if_neg Bool.false_ne_true, bind_apply,
    look_apply, bind_ok, h, hafter]
  cases at_group_by_end ts with
  | true => exact iff_of_true rfl rfl
  | false => exact iff_of_false group_by_list_ne_all Bool.false_ne_true

theorem group_by_all (h : syntaxes.group_by_all = true) :
    parse_group_by_body syntaxes group_by_item (.keyword .All :: ts) =
      .ok (⟨[], none, some .Keyword⟩, ts) ↔ at_group_by_end ts = true := by
  have hafter : at_group_by_end_after 1 (.keyword .All :: ts) = at_group_by_end ts := rfl
  have hdistinct : (if syntaxes.group_by_set_quantifier then eat_contextual_keyword "distinct"
      else return false : ParseResult Bool) (.keyword .All :: ts) =
      .ok (false, .keyword .All :: ts) := by
    cases syntaxes.group_by_set_quantifier <;> rfl
  have hall : peek_is_contextual_keyword "all" (.keyword .All :: ts) = true := rfl
  rw [parse_group_by_body, bind_apply, hdistinct, bind_ok, if_neg Bool.false_ne_true, bind_apply,
    look_apply, bind_ok, if_neg (by simp), bind_apply, look_apply, bind_ok, hall, if_pos rfl,
    bind_apply, look_apply, bind_ok, h, hafter]
  cases at_group_by_end ts with
  | true => exact iff_of_true rfl rfl
  | false =>
    refine iff_of_false ?_ Bool.false_ne_true
    rw [Bool.and_false, if_neg Bool.false_ne_true, ite_reader]
    split
    · exact group_by_list_ne_all
    · exact group_by_list_ne_all

/-- The parser takes a list as ended exactly where the words of its place say so. -/
theorem ends_iff {moment : Moment} (htolerated : moment.tolerated syntaxes = true) :
    moment.Ends syntaxes select_item group_by_item ts ↔ moment.place.at_end ts = true := by
  cases moment with
  | projection_comma from_first => exact trailing_turn_ends htolerated
  | empty_projection from_first =>
    have hnone : empty_allowed syntaxes none = true := Bool.and_eq_true_iff.mpr ⟨htolerated, rfl⟩
    constructor
    · intro hends
      exact (projection_eq_nil hnone).mp (hends none hnone)
    · intro hend distinct hallowed
      exact (projection_eq_nil hallowed).mpr hend
  | grouping_comma => exact trailing_turn_ends htolerated
  | grouping_all spelling =>
    cases spelling with
    | Keyword => exact group_by_all htolerated
    | Star => exact group_by_star htolerated

/-- After a tolerated comma, in front of an empty projection and behind `GROUP BY ALL`, the list
is taken as ended exactly where something follows it, unless a clause that can follow is one the
parser does not ask for, or a word it asks for opens no clause there. -/
theorem list_end_exact_iff {moment : Moment} (htolerated : moment.tolerated syntaxes = true) :
    (moment.Ends syntaxes select_item group_by_item ts ↔
      may_follow features syntaxes context moment.place ts = true) ↔
      ¬ Overlooked features syntaxes context moment.place ts ∧
        ¬ Misjudged features syntaxes context moment.place ts := by
  rw [ends_iff htolerated]
  exact at_end_exact_iff

/-- Behind the comma of `SELECT a, FROM t` the list ends. -/
theorem list_end_exact_from :
    (Moment.projection_comma false).Ends .DUCKDB (token label "an item")
      (fail "" : ParseResult (GroupByItem Unit)) [.keyword .From, .word "t".toList] ↔
      may_follow .DUCKDB .DUCKDB [] (.projection false) [.keyword .From, .word "t".toList] = true := by
  refine (list_end_exact_iff (by rfl)).mpr ⟨?_, ?_⟩
  · rintro (⟨clause, hclause, hopens⟩ | ⟨word, hword, -⟩)
    · have hfrom : clause.word = some "from" := word_of_opens hopens rfl
      exact overlooked_word (.projection false) clause hclause "from" (by decide) hfrom
    · cases hword
  · rintro ⟨word, hword, hpeek, -, hclosed⟩
    have hfrom : "from" = word := peek_unique (by rfl) hpeek
    subst hfrom
    exact absurd (hclosed .From (by decide) rfl) (by decide)

/-- `FROM t SELECT a, QUALIFY b` has a `QUALIFY` behind its list, and the parser asks for an item. -/
theorem list_end_qualify :
    ¬ ((Moment.projection_comma true).Ends .DUCKDB (token label "an item")
      (fail "" : ParseResult (GroupByItem Unit)) [.word "qualify".toList, .word "b".toList] ↔
      may_follow .DUCKDB .DUCKDB [] (.projection true)
        [.word "qualify".toList, .word "b".toList] = true) := by
  rw [ends_iff (by rfl)]
  decide +kernel

end squonk.parser.clause.list_end
