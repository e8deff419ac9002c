import Squonk.Dialect.Presets
import Squonk.Parser.Clause.Session.Variables

/-!
# Session statements are read again

The canonical text of a statement stands for the statement with one spelling for each assignment,
exactly where no value of a variable is written with a word that stands for a value itself.
-/

open squonk.ast squonk.tokenizer squonk.dialect listing listing.Reader

namespace squonk.parser.clause.session

variable {E : Type} {features : FeatureSet} {syntaxes : SessionSyntax}
  {parse_expr : ParseResult E} {write_expr : E → List Token} {ts mid rest rest' : List Token}

/-- The assignments of a statement. -/
def SessionStatement.assignments : SessionStatement E → List (SetVariableAssignment E)
  | .SetVariables assignments => assignments
  | _ => []

/-- The statement with the one spelling that is written for an assignment. -/
def SessionStatement.canonical : SessionStatement E → SessionStatement E
  | .Set scope name _ value => .Set scope name .To value
  | .SetVariables assignments => .SetVariables (assignments.map SetVariableAssignment.canonical)
  | statement => statement

/-- The scanner takes a word for its keyword, where it has one. -/
def Scanned (ts : List Token) : Prop :=
  ∀ text, Token.word text ∈ ts → ∀ keyword : Keyword, text.map Char.toLower ≠ keyword.as_str.toList

/-- What is written for a statement behind its first word. -/
def SessionStatement.tail (write_expr : E → List Token) (statement : SessionStatement E) :
    List Token := (statement.tokens write_expr).tail

/-- A statement without assignments has no value that is taken for another. -/
theorem plain_of_none {statement : SessionStatement E} (h : statement.assignments = []) :
    ∀ item ∈ statement.assignments, item.Plain write_expr := by
  rw [h]
  exact List.forall_mem_nil _

/-! ## Scopes -/

theorem expect_eq_ok {word : String} (h : expect_contextual_keyword word ts = .ok ((), rest)) :
    ∃ t, ts = t :: rest ∧ spelled t = some word.toList := by
  obtain ⟨⟨taken, mid⟩, heat, h⟩ := bind_eq_ok.mp h
  cases taken with
  | false => cases h
  | true =>
    cases h
    obtain ⟨t, rfl, htest⟩ := accept_eq_true heat
    exact ⟨t, rfl, beq_iff_eq.mp htest⟩

theorem peek_eq_true {word : String} (h : peek_is_contextual_keyword word ts = true) :
    ∃ t behind, ts = t :: behind ∧ spelled t = some word.toList := by
  cases ts with
  | nil => cases h
  | cons t ts => exact ⟨t, ts, rfl, beq_iff_eq.mp h⟩

theorem written_spelled (word : String) {t : Token} (h : word ∈ words)
    (ht : spelled t = some word.toList) : spelled (written word) = spelled t :=
  (spelled_written h).trans ht.symm

/-- The word of a scope is written in front of what the statement goes on with. -/
theorem set_scope_front {scope : Option SetScope} {tail : List Token}
    (h : parse_optional_set_scope ts = .ok (scope, mid)) (htail : Front mid tail) :
    Front ts (set_scope_tokens scope ++ tail) := by
  obtain ⟨⟨is_local, behind⟩, heat, h⟩ := bind_eq_ok.mp h
  cases is_local with
  | true =>
    cases h
    obtain ⟨t, rfl, htest⟩ := accept_eq_true heat
    exact front_cons (written_spelled "local" (by decide) (beq_iff_eq.mp htest)) htail.word
  | false =>
    obtain ⟨-, rfl⟩ := eat_false heat
    dsimp only at h
    rw [if_neg Bool.false_ne_true, bind_apply, look_apply, bind_ok] at h
    dsimp only at h
    split at h
    · obtain ⟨⟨⟨⟩, last⟩, hword, heq⟩ := bind_eq_ok.mp h
      cases heq
      obtain ⟨t, rfl, hspelled⟩ := expect_eq_ok hword
      exact front_cons (written_spelled "session" (by decide) hspelled) htail.word
    · cases h
      exact htail

/-- The word of a scope is read again. `SESSION` that was no scope stands in front of
`AUTHORIZATION`. -/
theorem set_scope_written {scope : Option SetScope} {tail : List Token}
    (h : parse_optional_set_scope ts = .ok (scope, mid)) (htail : Front mid tail)
    (hsession : peek_words "session" "authorization" mid = true →
      peek_words "session" "authorization" tail = true) :
    parse_optional_set_scope (set_scope_tokens scope ++ tail) = .ok (scope, tail) := by
  obtain ⟨⟨is_local, behind⟩, heat, h⟩ := bind_eq_ok.mp h
  cases is_local with
  | true =>
    cases h
    have hread : eat_contextual_keyword "local" (written "local" :: tail) = .ok (true, tail) :=
      eat_written (by decide)
    have htext : set_scope_tokens (some .Local) ++ tail = written "local" :: tail := rfl
    rw [htext, parse_optional_set_scope, bind_apply, hread]
    rfl
  | false =>
    obtain ⟨hlocal, rfl⟩ := eat_false heat
    dsimp only at h
    rw [if_neg Bool.false_ne_true, bind_apply, look_apply, bind_ok] at h
    dsimp only at h
    split at h
    · rename_i hlook
      obtain ⟨⟨⟨⟩, last⟩, hword, heq⟩ := bind_eq_ok.mp h
      cases heq
      obtain ⟨t, rfl, -⟩ := expect_eq_ok hword
      have hnot : peek_is_contextual_keyword "authorization" tail = false := by
        have hsecond := (Bool.and_eq_true_iff.mp hlook).2
        rw [Bool.not_eq_true'] at hsecond
        rw [htail.word, peek_is_contextual_keyword, List.head?_eq_getElem?]
        exact hsecond
      have hagain : (peek_is_contextual_keyword "session" (written "session" :: tail) &&
          !peek_nth_is_contextual_keyword 1 "authorization" (written "session" :: tail)) =
            true := by
        have hsecond : peek_nth_is_contextual_keyword 1 "authorization"
            (written "session" :: tail) = false := by
          rw [peek_is_contextual_keyword, List.head?_eq_getElem?] at hnot
          exact hnot
        rw [hsecond, peek_written (by decide)]
        rfl
      have hread : expect_contextual_keyword "session" (written "session" :: tail) =
          .ok ((), tail) := expect_written (by decide)
      have htext : set_scope_tokens (some .Session) ++ tail = written "session" :: tail := rfl
      rw [htext, parse_optional_set_scope, bind_apply, eat_other (by decide) (by decide), bind_ok,
        if_neg Bool.false_ne_true, bind_apply, look_apply, bind_ok, hagain, if_pos rfl, bind_apply,
        hread]
      rfl
    · rename_i hlook
      cases h
      have hagain : (peek_is_contextual_keyword "session" tail &&
          !peek_nth_is_contextual_keyword 1 "authorization" tail) = false := by
        cases hfirst : peek_is_contextual_keyword "session" tail with
        | false => rfl
        | true =>
          have hsource : peek_words "session" "authorization" ts = true := by
            rw [htail.word] at hfirst
            rw [hfirst, Bool.true_and, Bool.not_eq_true, Bool.not_eq_false'] at hlook
            rw [peek_words, hfirst, hlook]
            rfl
          have hwords := (Bool.and_eq_true_iff.mp (hsession hsource)).2
          rw [hwords]
          rfl
      have htext : set_scope_tokens none ++ tail = tail := rfl
      rw [htext, parse_optional_set_scope, bind_apply,
        eat_absent ((htail.word "local").trans hlocal), bind_ok, if_neg Bool.false_ne_true,
        bind_apply, look_apply, bind_ok, hagain]
      rfl

/-! ## One parameter -/

theorem special_value_front {sentinel_list : List String} {fuel : Nat} {value : SpecialSetValue}
    (h : parse_special_set_value syntaxes sentinel_list fuel ts = .ok (value, rest))
    (rest' : List Token) (word : String) :
    peek_is_contextual_keyword word (value.tokens ++ rest') =
      peek_is_contextual_keyword word ts := by
  rw [parse_special_set_value, bind_apply, optional_token_apply, bind_ok] at h
  cases hsentinel : ts.head?.bind (table_value (sentinels.filter fun entry =>
      sentinel_list.contains entry.1)) with
  | some sentinel =>
    rw [hsentinel] at h
    cases h
    obtain ⟨t, hts, hmeans⟩ := Option.bind_eq_some_iff.mp hsentinel
    obtain ⟨behind, rfl⟩ := List.head?_eq_some_iff.mp hts
    obtain ⟨entry, hmem, hspelled⟩ := table_value_eq_some hmeans
    obtain ⟨hword, htokens⟩ := sentinel_words _ (List.mem_filter.mp hmem).1
    rw [htokens]
    exact peek_spelled (written_spelled _ hword hspelled) word behind
  | none =>
    rw [hsentinel] at h
    obtain ⟨⟨found, last⟩, hvalue, heq⟩ := bind_eq_ok.mp h
    cases heq
    obtain ⟨⟨c, hts, htokens⟩, -⟩ := set_parameter_value_written hvalue
    exact peek_head hts htokens rest'

theorem expect_assignment_to (ts : List Token) :
    expect_set_assignment (written "to" :: ts) = .ok (.To, ts) := rfl

theorem peek_words_written {first second : String} (hfirst : first ∈ words)
    (hsecond : second ∈ words) (expected expected' : String) :
    peek_words expected expected' (written first :: written second :: ts) =
      (first == expected && second == expected') := by
  have hone : peek_is_contextual_keyword expected' (written second :: ts) = (second == expected') :=
    peek_written hsecond expected'
  have htwo : peek_nth_is_contextual_keyword 1 expected'
      (written first :: written second :: ts) = (second == expected') := hone
  rw [peek_words, peek_written hfirst, htwo]

theorem peek_other {word other : String} (h : word ∈ words) (hne : word ≠ other) :
    peek_is_contextual_keyword other (written word :: ts) = false := by
  rw [peek_written h]
  exact beq_false_of_ne hne

theorem peek_words_first {first : String} (hfirst : first ∈ words) (expected second : String)
    (hne : first ≠ expected) : peek_words expected second (written first :: ts) = false := by
  rw [peek_words, peek_written hfirst, beq_false_of_ne hne, Bool.false_and]

variable (write_expr) in
/-- A statement with one parameter is read again behind its scope. -/
theorem scoped_set_written {fuel : Nat} {scope : Option SetScope} {statement : SessionStatement E}
    (h : parse_scoped_set features syntaxes fuel scope mid = .ok (statement, rest))
    (hend : Ended rest') :
    ∃ tail, statement.tokens write_expr = written "set" :: (set_scope_tokens scope ++ tail) ∧
      Front mid (tail ++ rest') ∧
      (peek_words "session" "authorization" mid = true →
        peek_words "session" "authorization" (tail ++ rest') = true) ∧
      parse_scoped_set features syntaxes fuel scope (tail ++ rest') =
        .ok (statement.canonical, rest') ∧ statement.assignments = [] := by
  rw [parse_scoped_set, bind_apply, look_apply, bind_ok] at h
  dsimp only at h
  cases hzone : peek_words "time" "zone" mid with
  | true =>
    rw [hzone, if_pos rfl] at h
    obtain ⟨⟨⟨⟩, mid'⟩, htime, h⟩ := bind_eq_ok.mp h
    obtain ⟨⟨⟨⟩, behind⟩, hzone', h⟩ := bind_eq_ok.mp h
    obtain ⟨⟨value, last⟩, hvalue, heq⟩ := bind_eq_ok.mp h
    cases heq
    obtain ⟨t, rfl, ht⟩ := expect_eq_ok htime
    obtain ⟨t', rfl, ht'⟩ := expect_eq_ok hzone'
    refine ⟨[written "time", written "zone"] ++ value.tokens, ?_, ?_, ?_, ?_, rfl⟩
    · simp [SessionStatement.tokens]
    · exact front_cons (written_spelled "time" (by decide) ht) fun word =>
        peek_spelled (written_spelled "zone" (by decide) ht') word behind
    · intro hsession
      obtain ⟨c, _, hc, hspelled⟩ := peek_eq_true (Bool.and_eq_true_iff.mp hsession).1
      cases hc
      rw [ht] at hspelled
      cases hspelled
    · have htime' : ∀ ts, expect_contextual_keyword "time" (written "time" :: ts) = .ok ((), ts) :=
        fun _ => expect_written (by decide)
      have hzone'' : ∀ ts, expect_contextual_keyword "zone" (written "zone" :: ts) = .ok ((), ts) :=
        fun _ => expect_written (by decide)
      have hlook : ∀ ts, peek_words "time" "zone" (written "time" :: written "zone" :: ts) = true :=
        fun _ => peek_words_written (by decide) (by decide) _ _
      rw [List.append_assoc, List.cons_append, List.singleton_append, parse_scoped_set, bind_apply,
        look_apply, bind_ok, hlook, if_pos rfl, parse_set_time_zone, bind_apply, htime', bind_ok,
        bind_apply, hzone'', bind_ok, bind_apply, special_value_written hvalue]
      rfl
  | false =>
    rw [hzone, if_neg Bool.false_ne_true, bind_apply, look_apply, bind_ok] at h
    dsimp only at h
    cases hrole : peek_is_contextual_keyword "role" mid with
    | true =>
      rw [hrole, if_pos rfl] at h
      obtain ⟨⟨⟨⟩, behind⟩, hword, h⟩ := bind_eq_ok.mp h
      obtain ⟨⟨role, last⟩, hvalue, heq⟩ := bind_eq_ok.mp h
      cases heq
      obtain ⟨t, rfl, ht⟩ := expect_eq_ok hword
      refine ⟨[written "role"] ++ role.tokens, ?_, ?_, ?_, ?_, rfl⟩
      · simp [SessionStatement.tokens]
      · rw [List.append_assoc]
        exact front_cons (written_spelled "role" (by decide) ht) fun word =>
          special_value_front hvalue rest' word
      · intro hsession
        obtain ⟨c, _, hc, hspelled⟩ := peek_eq_true (Bool.and_eq_true_iff.mp hsession).1
        cases hc
        rw [ht] at hspelled
        cases hspelled
      · have hword' : ∀ ts, expect_contextual_keyword "role" (written "role" :: ts) =
            .ok ((), ts) := fun _ => expect_written (by decide)
        have hrole' : ∀ ts, peek_is_contextual_keyword "role" (written "role" :: ts) = true :=
          fun _ => peek_written (by decide) _
        rw [List.append_assoc, List.singleton_append, parse_scoped_set, bind_apply, look_apply,
          bind_ok, peek_words_first (by decide) _ _ (by decide), if_neg Bool.false_ne_true,
          bind_apply, look_apply, bind_ok, hrole', if_pos rfl, parse_set_role, bind_apply, hword',
          bind_ok, bind_apply, special_value_written hvalue]
        rfl
    | false =>
      rw [hrole, if_neg Bool.false_ne_true, bind_apply, look_apply, bind_ok] at h
      dsimp only at h
      cases hsession : peek_words "session" "authorization" mid with
      | true =>
        rw [hsession, if_pos rfl] at h
        obtain ⟨⟨⟨⟩, mid'⟩, hfirst, h⟩ := bind_eq_ok.mp h
        obtain ⟨⟨⟨⟩, behind⟩, hsecond, h⟩ := bind_eq_ok.mp h
        obtain ⟨⟨user, last⟩, hvalue, heq⟩ := bind_eq_ok.mp h
        cases heq
        obtain ⟨t, rfl, ht⟩ := expect_eq_ok hfirst
        obtain ⟨t', rfl, ht'⟩ := expect_eq_ok hsecond
        have hnot : ∀ ts, peek_words "time" "zone"
            (written "session" :: written "authorization" :: ts) = false :=
          fun _ => peek_words_written (by decide) (by decide) _ _
        have hlook : ∀ ts, peek_words "session" "authorization"
            (written "session" :: written "authorization" :: ts) = true :=
          fun _ => peek_words_written (by decide) (by decide) _ _
        refine ⟨[written "session", written "authorization"] ++ user.tokens, ?_, ?_, ?_, ?_, rfl⟩
        · simp [SessionStatement.tokens]
        · exact front_cons (written_spelled "session" (by decide) ht) fun word =>
            peek_spelled (written_spelled "authorization" (by decide) ht') word behind
        · intro _
          exact hlook _
        · have hfirst' : ∀ ts, expect_contextual_keyword "session" (written "session" :: ts) =
              .ok ((), ts) := fun _ => expect_written (by decide)
          have hsecond' : ∀ ts, expect_contextual_keyword "authorization"
              (written "authorization" :: ts) = .ok ((), ts) := fun _ => expect_written (by decide)
          have hrole' : ∀ ts, peek_is_contextual_keyword "role" (written "session" :: ts) = false :=
            fun _ => peek_written (by decide) _
          rw [List.append_assoc, List.cons_append, List.singleton_append, parse_scoped_set,
            bind_apply, look_apply, bind_ok, hnot, if_neg Bool.false_ne_true, bind_apply,
            look_apply, bind_ok, hrole', if_neg Bool.false_ne_true, bind_apply, look_apply, bind_ok,
            hlook, if_pos rfl, parse_set_session_authorization, bind_apply, hfirst', bind_ok,
            bind_apply, hsecond', bind_ok, bind_apply, special_value_written hvalue]
          rfl
      | false =>
        rw [hsession, if_neg Bool.false_ne_true] at h
        obtain ⟨⟨name, behind⟩, hname, h⟩ := bind_eq_ok.mp h
        obtain ⟨⟨assignment, behind'⟩, -, h⟩ := bind_eq_ok.mp h
        obtain ⟨⟨value, last⟩, hvalue, heq⟩ := bind_eq_ok.mp h
        cases heq
        obtain ⟨⟨first, parts, rfl, hts, -⟩, hsplit, hread⟩ := object_name_written hname
        have htext : (object_name_tokens (first :: parts) ++ [written "to"] ++ value.tokens) ++
            rest' = object_name_tokens (first :: parts) ++
              (written "to" :: (value.tokens ++ rest')) := by simp
        have hto : ∀ word, word ≠ "to" → ∀ ts,
            peek_is_contextual_keyword word (written "to" :: ts) = false := by
          intro word hne ts
          rw [peek_written (by decide)]
          exact beq_false_of_ne hne.symm
        have hfront : Front mid (object_name_tokens (first :: parts) ++
            (written "to" :: (value.tokens ++ rest'))) :=
          front_of_name ⟨first, parts, first.token, _, rfl, hsplit, rfl⟩ fun word hne =>
            hto word hne _
        refine ⟨object_name_tokens (first :: parts) ++ [written "to"] ++ value.tokens, ?_, ?_, ?_,
          ?_, rfl⟩
        · simp [SessionStatement.tokens]
        · rw [htext]
          exact hfront
        · intro hsession'
          cases hsession'
        · have hdot : (written "to" :: (value.tokens ++ rest')).head? ≠
              some (.punctuation .Dot) := nofun
          rw [htext, parse_scoped_set, bind_apply, look_apply, bind_ok,
            hfront.words _ _ (by decide) hzone, if_neg Bool.false_ne_true, bind_apply, look_apply,
            bind_ok, hfront.word, hrole, if_neg Bool.false_ne_true, bind_apply, look_apply, bind_ok,
            hfront.words _ _ (by decide) hsession, if_neg Bool.false_ne_true, bind_apply,
            hread _ hdot, bind_ok, bind_apply, expect_assignment_to, bind_ok, bind_apply,
            set_value_written hvalue (ended_ne hend (by decide))]
          rfl

/-! ## Variables -/

/-- No statement of its own stands here. -/
structure Told (syntaxes : SessionSyntax) (ts : List Token) : Prop where
  constraints : peek_is_contextual_keyword "constraints" ts = false
  names : peek_is_contextual_keyword "names" ts = false
  characteristics : peek_words "session" "characteristics" ts = false
  group : (syntaxes.resource_group && peek_words "resource" "group" ts) = false

theorem told_front {text : List Token} (hfront : Front ts text) (h : Told syntaxes ts) :
    Told syntaxes text where
  constraints := (hfront.word _).trans h.constraints
  names := (hfront.word _).trans h.names
  characteristics := hfront.words _ _ (by decide) h.characteristics
  group := by
    cases hgate : syntaxes.resource_group with
    | false => rfl
    | true =>
      have hgroup := h.group
      rw [hgate, Bool.true_and] at hgroup
      rw [Bool.true_and]
      exact hfront.words _ _ (by decide) hgroup

theorem told_written {word : String} (h : word ∈ words)
    (hne : ∀ other ∈ ["constraints", "names", "session", "resource"], word ≠ other) :
    Told syntaxes (written word :: ts) where
  constraints := (peek_written h _).trans (beq_false_of_ne (hne _ (by decide)))
  names := (peek_written h _).trans (beq_false_of_ne (hne _ (by decide)))
  characteristics := peek_words_first h _ _ (hne _ (by decide))
  group := by
    rw [peek_words_first h _ _ (hne _ (by decide)), Bool.and_false]

theorem parse_set_told {fuel : Nat} (h : Told syntaxes ts) :
    parse_set features syntaxes parse_expr fuel ts =
      (if syntaxes.variable_assignment then parse_mysql_set features syntaxes parse_expr fuel
        else parse_optional_set_scope >>= parse_scoped_set features syntaxes fuel) ts := by
  rw [parse_set, bind_apply, look_apply, bind_ok, h.constraints, if_neg Bool.false_ne_true,
    bind_apply, look_apply, bind_ok, h.names, if_neg Bool.false_ne_true, bind_apply, look_apply,
    bind_ok, h.characteristics, if_neg Bool.false_ne_true, bind_apply, look_apply, bind_ok, h.group,
    if_neg Bool.false_ne_true]

/-- A list of assignments is read again exactly where no value is written with a word that stands
for a value itself. -/
theorem set_variables_iff {assignments : List (SetVariableAssignment E)}
    (h : parse_comma_separated (parse_mysql_set_item features syntaxes parse_expr) ts =
      .ok (assignments, rest))
    (hlexed : ∀ item ∈ assignments, item.Lexed)
    (hback : ∀ item ∈ assignments, ∀ expr ∈ item.exprs, ReadBack parse_expr write_expr expr)
    (hend : Ended rest') :
    Front ts (comma_list (SetVariableAssignment.tokens write_expr) assignments ++ rest') ∧
    (parse_comma_separated (parse_mysql_set_item features syntaxes parse_expr)
        (comma_list (SetVariableAssignment.tokens write_expr) assignments ++ rest') =
      .ok (assignments.map SetVariableAssignment.canonical, rest') ↔
        ∀ item ∈ assignments, item.Plain write_expr) := by
  obtain ⟨head, tail, mid, rfl, hhead, hitems⟩ := comma_separated_mem h
  constructor
  · rw [comma_list, List.append_assoc, assignment_tokens]
    exact (target_written (hlexed head List.mem_cons_self) hhead rfl).2
  · have hitem : ∀ item ∈ head :: tail, item.Plain write_expr → ∀ rest, Follows rest →
        parse_mysql_set_item features syntaxes parse_expr (item.tokens write_expr ++ rest) =
          .ok (item.canonical, rest) := by
      intro item hmem hplain rest hfollows
      obtain ⟨ts', behind, hone⟩ := hitems item hmem
      exact set_item_written (hlexed item hmem) hone (hback item hmem) hplain hfollows
    have hplain : ∀ item ∈ head :: tail, ∀ rest behind, Follows rest →
        parse_mysql_set_item features syntaxes parse_expr (item.tokens write_expr ++ rest) =
          .ok (item.canonical, behind) → item.Plain write_expr := by
      intro item hmem rest behind hfollows hread
      obtain ⟨ts', behind', hone⟩ := hitems item hmem
      exact set_item_plain (hlexed item hmem) hone hfollows hread
    exact comma_list_iff (fun _ => .inl rfl) (List.cons_ne_nil head tail) hitem hplain (.inr hend)
      (ended_ne hend (by decide))

theorem mysql_set_iff {fuel : Nat} {statement : SessionStatement E}
    (h : parse_mysql_set features syntaxes parse_expr fuel ts = .ok (statement, rest))
    (htold : Told syntaxes ts) (hlexed : ∀ item ∈ statement.assignments, item.Lexed)
    (hback : ∀ item ∈ statement.assignments, ∀ expr ∈ item.exprs,
      ReadBack parse_expr write_expr expr) (hend : Ended rest') :
    (∃ behind, statement.tokens write_expr = written "set" :: behind) ∧
    Told syntaxes (statement.tail write_expr ++ rest') ∧
    (parse_mysql_set features syntaxes parse_expr fuel (statement.tail write_expr ++ rest') =
      .ok (statement.canonical, rest') ↔
        ∀ item ∈ statement.assignments, item.Plain write_expr) := by
  obtain ⟨⟨charset, mid⟩, heat, h⟩ := bind_eq_ok.mp h
  cases charset with
  | true =>
    obtain ⟨value, rfl, hread⟩ := character_set_written h
    have htext : (SessionStatement.SetCharacterSet (E := E) .Charset value).tail write_expr ++
        rest' = written "charset" :: (value.tokens ++ rest') := rfl
    have heat' : ∀ ts, eat_contextual_keyword "charset" (written "charset" :: ts) =
        .ok (true, ts) := fun _ => eat_written (by decide)
    rw [htext]
    refine ⟨⟨_, rfl⟩, told_written (by decide) (by decide), iff_of_true ?_ (plain_of_none rfl)⟩
    rw [parse_mysql_set, bind_apply, heat', bind_ok, if_pos rfl, hread]
    rfl
  | false =>
    obtain ⟨hcharset, rfl⟩ := eat_false heat
    dsimp only at h
    rw [if_neg Bool.false_ne_true, bind_apply, look_apply, bind_ok] at h
    dsimp only at h
    cases hset : peek_words "character" "set" ts with
    | true =>
      rw [hset, if_pos rfl] at h
      obtain ⟨⟨⟨⟩, mid'⟩, -, h⟩ := bind_eq_ok.mp h
      obtain ⟨⟨⟨⟩, behind⟩, -, h⟩ := bind_eq_ok.mp h
      obtain ⟨value, rfl, hread⟩ := character_set_written h
      have htext : (SessionStatement.SetCharacterSet (E := E) .CharacterSet value).tail
          write_expr ++ rest' = written "character" :: written "set" :: (value.tokens ++ rest') := rfl
      have hfirst : ∀ ts, expect_contextual_keyword "character" (written "character" :: ts) =
          .ok ((), ts) := fun _ => expect_written (by decide)
      have hsecond : ∀ ts, expect_contextual_keyword "set" (written "set" :: ts) =
          .ok ((), ts) := fun _ => expect_written (by decide)
      have hlook : ∀ ts, peek_words "character" "set" (written "character" :: written "set" :: ts) =
          true := fun _ => peek_words_written (by decide) (by decide) _ _
      rw [htext]
      refine ⟨⟨_, rfl⟩, told_written (by decide) (by decide), iff_of_true ?_ (plain_of_none rfl)⟩
      rw [parse_mysql_set, bind_apply, eat_other (by decide) (by decide), bind_ok,
        if_neg Bool.false_ne_true, bind_apply, look_apply, bind_ok, hlook, if_pos rfl, bind_apply,
        hfirst, bind_ok, bind_apply, hsecond, bind_ok, hread]
      rfl
    | false =>
      rw [hset, if_neg Bool.false_ne_true, bind_apply, look_apply, bind_ok] at h
      dsimp only at h
      cases hrole : peek_is_contextual_keyword "role" ts with
      | true =>
        rw [hrole, if_pos rfl] at h
        obtain ⟨⟨⟨⟩, behind⟩, -, h⟩ := bind_eq_ok.mp h
        obtain ⟨⟨role, last⟩, hvalue, heq⟩ := bind_eq_ok.mp h
        cases heq
        have htext : (SessionStatement.SetRole (E := E) none role).tail write_expr ++ rest' =
            written "role" :: (role.tokens ++ rest') := rfl
        have hword : ∀ ts, expect_contextual_keyword "role" (written "role" :: ts) =
            .ok ((), ts) := fun _ => expect_written (by decide)
        have hrole' : ∀ ts, peek_is_contextual_keyword "role" (written "role" :: ts) = true :=
          fun _ => peek_written (by decide) _
        rw [htext]
        refine ⟨⟨_, rfl⟩, told_written (by decide) (by decide), iff_of_true ?_ (plain_of_none rfl)⟩
        rw [parse_mysql_set, bind_apply, eat_other (by decide) (by decide), bind_ok,
          if_neg Bool.false_ne_true, bind_apply, look_apply, bind_ok,
          peek_words_first (by decide) _ _ (by decide), if_neg Bool.false_ne_true, bind_apply,
          look_apply, bind_ok, hrole', if_pos rfl, parse_set_role, bind_apply, hword, bind_ok,
          bind_apply, special_value_written hvalue]
        rfl
      | false =>
        rw [hrole, if_neg Bool.false_ne_true] at h
        obtain ⟨⟨assignments, last⟩, hlist, heq⟩ := bind_eq_ok.mp h
        cases heq
        obtain ⟨hfront, hiff⟩ := set_variables_iff hlist hlexed hback hend
        have htext : (SessionStatement.SetVariables assignments).tail write_expr ++ rest' =
            comma_list (SetVariableAssignment.tokens write_expr) assignments ++ rest' := rfl
        rw [htext]
        refine ⟨⟨_, rfl⟩, told_front hfront htold, ?_⟩
        rw [parse_mysql_set, bind_apply, eat_absent ((hfront.word _).trans hcharset), bind_ok,
          if_neg Bool.false_ne_true, bind_apply, look_apply, bind_ok,
          hfront.words _ _ (by decide) hset, if_neg Bool.false_ne_true, bind_apply, look_apply,
          bind_ok, hfront.word, hrole, if_neg Bool.false_ne_true, parse_mysql_set_variables,
          bind_apply]
        constructor
        · intro hread
          obtain ⟨⟨items, last⟩, hitems, heq⟩ := bind_eq_ok.mp hread
          cases heq
          exact hiff.mp hitems
        · intro hplain
          rw [hiff.mpr hplain]
          rfl

/-! ## Statements -/

theorem constraints_written {statement : SessionStatement E}
    (h : parse_set_constraints features syntaxes ts = .ok (statement, rest)) :
    ∃ constraints check_time, statement = .SetConstraints constraints check_time ∧ ∀ rest',
      parse_set_constraints (E := E) features syntaxes (written "constraints" ::
        (constraints.tokens ++ written check_time.word :: rest')) = .ok (statement, rest') := by
  obtain ⟨⟨⟨⟩, mid⟩, -, h⟩ := bind_eq_ok.mp h
  obtain ⟨⟨constraints, behind⟩, hconstraints, h⟩ := bind_eq_ok.mp h
  obtain ⟨⟨check_time, last⟩, htime, heq⟩ := bind_eq_ok.mp h
  cases heq
  refine ⟨constraints, check_time, rfl, ?_⟩
  intro rest'
  have hword : ∀ ts, expect_contextual_keyword "constraints" (written "constraints" :: ts) =
      .ok ((), ts) := fun _ => expect_written (by decide)
  have hhead : (written check_time.word :: rest').head? ≠ some (.punctuation .Dot) ∧
      (written check_time.word :: rest').head? ≠ some .comma := by
    cases check_time <;> exact ⟨nofun, nofun⟩
  rw [parse_set_constraints, bind_apply, hword, bind_ok, bind_apply,
    constraints_target_written hconstraints hhead.1 hhead.2, bind_ok, bind_apply,
    check_time_written htime]
  rfl

theorem set_names_written {fuel : Nat} {statement : SessionStatement E}
    (h : parse_set_names features syntaxes fuel ts = .ok (statement, rest)) (hend : Ended rest') :
    ∃ value, statement = .SetNames value ∧
      parse_set_names (E := E) features syntaxes fuel (written "names" ::
        (value.tokens ++ rest')) = .ok (statement, rest') := by
  have hword : ∀ ts, expect_contextual_keyword "names" (written "names" :: ts) = .ok ((), ts) :=
    fun _ => expect_written (by decide)
  obtain ⟨⟨⟨⟩, mid⟩, -, h⟩ := bind_eq_ok.mp h
  dsimp only at h
  rw [bind_apply, look_apply, bind_ok] at h
  dsimp only at h
  cases hempty : mid.head?.all (· == .punctuation .Semicolon) with
  | true =>
    rw [hempty, if_pos rfl] at h
    split at h
    · cases h
    · cases h
      refine ⟨.Default, rfl, ?_⟩
      have hread : eat_contextual_keyword "default" (written "default" :: rest') =
          .ok (true, rest') := eat_written (by decide)
      have hlook : (written "default" :: rest').head?.all (· == .punctuation .Semicolon) =
          false := rfl
      rw [SetNamesValue.tokens, List.singleton_append, parse_set_names, bind_apply, hword, bind_ok,
        bind_apply, look_apply, bind_ok, hlook, if_neg Bool.false_ne_true, parse_set_names_value,
        bind_apply, bind_apply, hread]
      rfl
  | false =>
    rw [hempty, if_neg Bool.false_ne_true] at h
    obtain ⟨⟨value, last⟩, hvalue, heq⟩ := bind_eq_ok.mp h
    cases heq
    refine ⟨value, rfl, ?_⟩
    have hlook : (value.tokens ++ rest').head?.all (· == .punctuation .Semicolon) = false := by
      cases value with
      | Default => rfl
      | Charset charset collation =>
        obtain ⟨⟨taken, behind⟩, heat, hvalue⟩ := bind_eq_ok.mp hvalue
        cases taken with
        | true => cases hvalue
        | false =>
          obtain ⟨-, rfl⟩ := eat_false heat
          obtain ⟨⟨found, behind⟩, hcharset, hvalue⟩ := bind_eq_ok.mp hvalue
          have hsame : found = charset := by
            obtain ⟨⟨collated, behind'⟩, -, hvalue⟩ := bind_eq_ok.mp hvalue
            cases collated with
            | true =>
              obtain ⟨⟨_, _⟩, -, heq⟩ := bind_eq_ok.mp hvalue
              cases heq
              rfl
            | false =>
              cases hvalue
              rfl
          subst hsame
          obtain ⟨⟨t, hts, htokens⟩, -⟩ := set_parameter_value_written hcharset
          rw [SetNamesValue.tokens, List.append_assoc, head_append htokens, ← hts]
          exact hempty
    rw [parse_set_names, bind_apply, hword, bind_ok, bind_apply, look_apply, bind_ok, hlook,
      if_neg Bool.false_ne_true, bind_apply, names_value_written hvalue hend]
    rfl

theorem characteristics_written {statement : SessionStatement E}
    (h : parse_set_session_characteristics syntaxes ts = .ok (statement, rest))
    (hend : Ended rest') :
    ∃ modes, statement = .SetSessionCharacteristics modes ∧
      parse_set_session_characteristics (E := E) syntaxes (written "session" ::
        written "characteristics" :: written "as" :: written "transaction" ::
          (comma_list TransactionMode.tokens modes ++ rest')) = .ok (statement, rest') := by
  obtain ⟨⟨⟨⟩, mid⟩, -, h⟩ := bind_eq_ok.mp h
  obtain ⟨⟨⟨⟩, mid⟩, -, h⟩ := bind_eq_ok.mp h
  obtain ⟨⟨⟨⟩, mid⟩, -, h⟩ := bind_eq_ok.mp h
  obtain ⟨⟨⟨⟩, mid⟩, -, h⟩ := bind_eq_ok.mp h
  obtain ⟨⟨modes, behind⟩, hmodes, h⟩ := bind_eq_ok.mp h
  dsimp only at h
  cases hempty : modes.isEmpty with
  | true =>
    rw [hempty, if_pos rfl] at h
    cases h
  | false =>
    rw [hempty, if_neg Bool.false_ne_true] at h
    cases h
    refine ⟨modes, rfl, ?_⟩
    have hword : ∀ word ∈ words, ∀ ts, expect_contextual_keyword word (written word :: ts) =
        .ok ((), ts) := fun _ hword _ => expect_written hword
    rw [parse_set_session_characteristics, bind_apply, hword "session" (by decide), bind_ok,
      bind_apply, hword "characteristics" (by decide), bind_ok, bind_apply,
      hword "as" (by decide), bind_ok, bind_apply, hword "transaction" (by decide), bind_ok,
      bind_apply, transaction_modes_written hmodes hend, bind_ok]
    dsimp only
    rw [hempty]
    rfl

theorem resource_group_written {statement : SessionStatement E}
    (h : parse_set_resource_group features syntaxes ts = .ok (statement, rest))
    (hend : Ended rest') :
    ∃ name thread_ids, statement = .SetResourceGroup name thread_ids ∧
      parse_set_resource_group (E := E) features syntaxes (written "resource" ::
        written "group" :: expr.ident_token name :: ((thread_ids.toList.flatMap fun ids =>
          [written "for"] ++ comma_list (fun id => [.number id]) ids) ++ rest')) =
            .ok (statement, rest') := by
  obtain ⟨⟨⟨⟩, mid⟩, -, h⟩ := bind_eq_ok.mp h
  obtain ⟨⟨⟨⟩, mid⟩, -, h⟩ := bind_eq_ok.mp h
  obtain ⟨⟨name, behind⟩, hname, h⟩ := bind_eq_ok.mp h
  obtain ⟨⟨bound, behind'⟩, -, h⟩ := bind_eq_ok.mp h
  have hword : ∀ word ∈ words, ∀ ts, expect_contextual_keyword word (written word :: ts) =
      .ok ((), ts) := fun _ hword _ => expect_written hword
  cases bound with
  | true =>
    obtain ⟨⟨ids, last⟩, hids, heq⟩ := bind_eq_ok.mp h
    cases heq
    refine ⟨name, some ids, rfl, ?_⟩
    have hfor : ∀ ts, eat_contextual_keyword "for" (written "for" :: ts) = .ok (true, ts) :=
      fun _ => eat_written (by decide)
    have htext : ((some ids).toList.flatMap fun ids => [written "for"] ++
        comma_list (fun id => [Token.number id]) ids) ++ rest' =
          written "for" :: (comma_list (fun id => [.number id]) ids ++ rest') := by simp
    rw [htext, parse_set_resource_group, bind_apply, hword "resource" (by decide), bind_ok,
      bind_apply, hword "group" (by decide), bind_ok, bind_apply, ident_written hname, bind_ok,
      bind_apply, hfor, bind_ok, if_pos rfl, bind_apply, thread_ids_written hids hend]
    rfl
  | false =>
    cases h
    refine ⟨name, none, rfl, ?_⟩
    have htext : ((none : Option (List (List Char))).toList.flatMap fun ids => [written "for"] ++
        comma_list (fun id => [Token.number id]) ids) ++ rest' = rest' := rfl
    rw [htext, parse_set_resource_group, bind_apply, hword "resource" (by decide), bind_ok,
      bind_apply, hword "group" (by decide), bind_ok, bind_apply, ident_written hname, bind_ok,
      bind_apply, ended_eat hend]
    rfl

/-- A statement behind its `SET` is read again exactly where no value of a variable is written with
a word that stands for a value itself. -/
theorem set_iff {fuel : Nat} {statement : SessionStatement E}
    (h : parse_set features syntaxes parse_expr fuel ts = .ok (statement, rest))
    (hlexed : ∀ item ∈ statement.assignments, item.Lexed)
    (hback : ∀ item ∈ statement.assignments, ∀ expr ∈ item.exprs,
      ReadBack parse_expr write_expr expr) (hend : Ended rest') :
    (∃ behind, statement.tokens write_expr = written "set" :: behind) ∧
    (parse_set features syntaxes parse_expr fuel (statement.tail write_expr ++ rest') =
      .ok (statement.canonical, rest') ↔
        ∀ item ∈ statement.assignments, item.Plain write_expr) := by
  rw [parse_set, bind_apply, look_apply, bind_ok] at h
  dsimp only at h
  cases hconstraints : peek_is_contextual_keyword "constraints" ts with
  | true =>
    rw [hconstraints, if_pos rfl] at h
    obtain ⟨constraints, check_time, rfl, hread⟩ := constraints_written h
    refine ⟨⟨_, rfl⟩, iff_of_true ?_ (plain_of_none rfl)⟩
    have htext : (SessionStatement.SetConstraints (E := E) constraints check_time).tail
        write_expr ++ rest' =
          written "constraints" :: (constraints.tokens ++ written check_time.word :: rest') := by
      simp [SessionStatement.tail, SessionStatement.tokens]
    have hpeek : ∀ ts, peek_is_contextual_keyword "constraints" (written "constraints" :: ts) =
        true := fun _ => peek_written (by decide) _
    rw [htext, parse_set, bind_apply, look_apply, bind_ok, hpeek, if_pos rfl, hread]
    rfl
  | false =>
    rw [hconstraints, if_neg Bool.false_ne_true, bind_apply, look_apply, bind_ok] at h
    dsimp only at h
    cases hnames : peek_is_contextual_keyword "names" ts with
    | true =>
      rw [hnames, if_pos rfl] at h
      obtain ⟨value, rfl, hread⟩ := set_names_written h hend
      refine ⟨⟨_, rfl⟩, iff_of_true ?_ (plain_of_none rfl)⟩
      have htext : (SessionStatement.SetNames (E := E) value).tail write_expr ++ rest' =
          written "names" :: (value.tokens ++ rest') := rfl
      have hpeek : ∀ ts, peek_is_contextual_keyword "names" (written "names" :: ts) = true :=
        fun _ => peek_written (by decide) _
      rw [htext, parse_set, bind_apply, look_apply, bind_ok, peek_other (by decide) (by decide),
        if_neg Bool.false_ne_true, bind_apply, look_apply, bind_ok, hpeek, if_pos rfl, hread]
      rfl
    | false =>
      rw [hnames, if_neg Bool.false_ne_true, bind_apply, look_apply, bind_ok] at h
      dsimp only at h
      cases hsession : peek_words "session" "characteristics" ts with
      | true =>
        rw [hsession, if_pos rfl] at h
        obtain ⟨modes, rfl, hread⟩ := characteristics_written h hend
        refine ⟨⟨_, rfl⟩, iff_of_true ?_ (plain_of_none rfl)⟩
        have htext : (SessionStatement.SetSessionCharacteristics (E := E) modes).tail write_expr ++
            rest' = written "session" :: written "characteristics" :: written "as" ::
              written "transaction" :: (comma_list TransactionMode.tokens modes ++ rest') := rfl
        have hlook : ∀ ts, peek_words "session" "characteristics"
            (written "session" :: written "characteristics" :: ts) = true :=
          fun _ => peek_words_written (by decide) (by decide) _ _
        rw [htext, parse_set, bind_apply, look_apply, bind_ok, peek_other (by decide) (by decide),
          if_neg Bool.false_ne_true, bind_apply, look_apply, bind_ok,
          peek_other (by decide) (by decide), if_neg Bool.false_ne_true, bind_apply, look_apply,
          bind_ok, hlook, if_pos rfl, hread]
        rfl
      | false =>
        rw [hsession, if_neg Bool.false_ne_true, bind_apply, look_apply, bind_ok] at h
        dsimp only at h
        cases hgroup : (syntaxes.resource_group && peek_words "resource" "group" ts) with
        | true =>
          rw [hgroup, if_pos rfl] at h
          obtain ⟨name, thread_ids, rfl, hread⟩ := resource_group_written h hend
          refine ⟨⟨_, rfl⟩, iff_of_true ?_ (plain_of_none rfl)⟩
          have htext : (SessionStatement.SetResourceGroup (E := E) name thread_ids).tail
              write_expr ++ rest' = written "resource" :: written "group" ::
                expr.ident_token name :: ((thread_ids.toList.flatMap fun ids => [written "for"] ++
                  comma_list (fun id => [.number id]) ids) ++ rest') := rfl
          have hnot : ∀ ts, peek_words "session" "characteristics" (written "resource" :: ts) =
              false := fun _ => peek_words_first (by decide) _ _ (by decide)
          have hlook : ∀ ts, (syntaxes.resource_group && peek_words "resource" "group"
              (written "resource" :: written "group" :: ts)) = true := by
            intro ts
            rw [(Bool.and_eq_true_iff.mp hgroup).1, Bool.true_and]
            exact peek_words_written (by decide) (by decide) _ _
          rw [htext, parse_set, bind_apply, look_apply, bind_ok, peek_other (by decide) (by decide),
            if_neg Bool.false_ne_true, bind_apply, look_apply, bind_ok,
            peek_other (by decide) (by decide), if_neg Bool.false_ne_true, bind_apply, look_apply,
            bind_ok, hnot, if_neg Bool.false_ne_true, bind_apply, look_apply, bind_ok, hlook,
            if_pos rfl, hread]
          rfl
        | false =>
          rw [hgroup, if_neg Bool.false_ne_true] at h
          have htold : Told syntaxes ts := ⟨hconstraints, hnames, hsession, hgroup⟩
          cases hvariables : syntaxes.variable_assignment with
          | true =>
            rw [hvariables, if_pos rfl] at h
            obtain ⟨hset, htold', hiff⟩ := mysql_set_iff h htold hlexed hback hend
            rw [parse_set_told htold', hvariables, if_pos rfl]
            exact ⟨hset, hiff⟩
          | false =>
            rw [hvariables, if_neg Bool.false_ne_true] at h
            obtain ⟨⟨scope, mid⟩, hscope, hscoped⟩ := bind_eq_ok.mp h
            obtain ⟨tail, htail, hfront, hwords, hread, hnone⟩ :=
              scoped_set_written write_expr hscoped hend
            refine ⟨⟨_, htail⟩, iff_of_true ?_ ?_⟩
            · have htold' := told_front (set_scope_front hscope hfront) htold
              rw [SessionStatement.tail, htail, List.tail_cons, List.append_assoc,
                parse_set_told htold', hvariables, if_neg Bool.false_ne_true, bind_apply,
                set_scope_written hscope hfront hwords]
              exact hread
            · exact plain_of_none hnone

/-- A word that was scanned is the token that is written for it. -/
theorem scanned_all {t : Token} (hscanned : Scanned (t :: ts)) (h : spelled t = some "all".toList) :
    t = written "all" := by
  have hall : written "all" = .keyword .All := by decide +kernel
  cases t with
  | word text =>
    have hne := hscanned text List.mem_cons_self .All
    exact absurd (Option.some.inj h) hne
  | keyword keyword =>
    have hkeywords : ∀ keyword ∈ Keyword.all, keyword.as_str = "all" → keyword = .All := by
      decide +kernel
    have htext : keyword.as_str = "all" := String.toList_inj.mp (Option.some.inj h)
    rw [hall, hkeywords keyword (Keyword.mem_all keyword) htext]
  | _ => cases h

theorem ended_column_name (hend : Ended rest) :
    (rest.head?.any fun t => (expr.column_name features t).isSome) = false := by
  cases hhead : rest.head? with
  | none => rfl
  | some t =>
    rw [hend t hhead]
    rfl

/-- What is written for a parameter starts with the token that stood there. -/
theorem config_parameter_head {target : ConfigParameter} (hscanned : Scanned ts)
    (h : parse_config_parameter features syntaxes ts = .ok (target, rest)) :
    ∃ t, target.tokens.head? = some t ∧ ts.head? = some t := by
  obtain ⟨⟨taken, mid⟩, heat, h⟩ := bind_eq_ok.mp h
  cases taken with
  | true =>
    cases h
    obtain ⟨t, rfl, htest⟩ := accept_eq_true heat
    exact ⟨t, congrArg some (scanned_all hscanned (beq_iff_eq.mp htest)).symm, rfl⟩
  | false =>
    obtain ⟨-, rfl⟩ := eat_false heat
    obtain ⟨⟨name, behind⟩, hname, heq⟩ := bind_eq_ok.mp h
    cases heq
    obtain ⟨⟨first, parts, rfl, hts, -⟩, -, -⟩ := object_name_written hname
    exact ⟨first.token, rfl, hts⟩

/-- Behind the first token of a parameter stands no name. -/
theorem config_parameter_second {target : ConfigParameter} {t : Token}
    (hhead : target.tokens.head? = some t) (hend : Ended rest) :
    ((target.tokens ++ rest).tail.head?.any fun t => (expr.column_name features t).isSome) =
      false := by
  cases target with
  | All => exact ended_column_name hend
  | Named name =>
    cases name with
    | nil => cases hhead
    | cons first parts =>
      cases parts with
      | nil => exact ended_column_name hend
      | cons part parts => rfl

theorem reset_scope_written {scope : Option SetScope} {target : ConfigParameter}
    (h : parse_optional_reset_scope features syntaxes ts = .ok (scope, mid))
    {first : Token} (hhead : target.tokens.head? = some first) (hmid : mid.head? = some first)
    (hend : Ended rest') :
    parse_optional_reset_scope features syntaxes (set_scope_tokens scope ++
      (target.tokens ++ rest')) = .ok (scope, target.tokens ++ rest') := by
  have htable : ∀ entry ∈ reset_scopes, entry.1 = entry.2.word ∧ entry.1 ∈ words := by
    simp [reset_scopes, SetScope.word, words]
  rw [parse_optional_reset_scope, bind_apply, look_apply, bind_ok] at h
  dsimp only at h
  have hnone : parse_optional_reset_scope features syntaxes (target.tokens ++ rest') =
      .ok (none, target.tokens ++ rest') := by
    rw [parse_optional_reset_scope, bind_apply, look_apply, bind_ok,
      config_parameter_second hhead hend, Bool.and_false]
    rfl
  cases hlook : (syntaxes.reset_scope &&
      ts.tail.head?.any fun t => (expr.column_name features t).isSome) with
  | false =>
    rw [hlook] at h
    cases h
    exact hnone
  | true =>
    rw [hlook, if_pos rfl, optional_token_apply, Except.ok.injEq, Prod.mk.injEq] at h
    obtain ⟨hscope, hbehind⟩ := h
    cases scope with
    | none => exact hnone
    | some scope =>
      obtain ⟨t, hts, hmeans⟩ := Option.bind_eq_some_iff.mp hscope
      obtain ⟨behind, rfl⟩ := List.head?_eq_some_iff.mp hts
      obtain ⟨hgate, hname⟩ := Bool.and_eq_true_iff.mp hlook
      rw [hscope, Option.isSome_some, if_pos rfl, List.tail_cons] at hbehind
      subst hbehind
      have hagain : (syntaxes.reset_scope && (set_scope_tokens (some scope) ++ (target.tokens ++
          rest')).tail.head?.any fun t => (expr.column_name features t).isSome) = true := by
        have htail : (set_scope_tokens (some scope) ++ (target.tokens ++ rest')).tail =
            target.tokens ++ rest' := rfl
        rw [List.tail_cons, hmid] at hname
        rw [hgate, Bool.true_and, htail, head_append hhead]
        exact hname
      obtain ⟨word, hmem, hspelled⟩ := table_value_eq_some hmeans
      obtain ⟨hword, hwords⟩ := htable _ hmem
      dsimp only at hword
      subst hword
      rw [parse_optional_reset_scope, bind_apply, look_apply, bind_ok, hagain, if_pos rfl]
      exact optional_written (spelled_written hwords) hspelled hmeans

theorem reset_scope_subset {scope : Option SetScope}
    (h : parse_optional_reset_scope features syntaxes ts = .ok (scope, mid)) : mid ⊆ ts := by
  rw [parse_optional_reset_scope, bind_apply, look_apply, bind_ok] at h
  split at h
  · rw [optional_token_apply, Except.ok.injEq, Prod.mk.injEq] at h
    obtain ⟨-, rfl⟩ := h
    split
    · exact List.tail_subset ts
    · exact List.Subset.refl ts
  · cases h
    exact List.Subset.refl ts

theorem reset_written {scope : Option SetScope} {target : ConfigParameter} (hscanned : Scanned mid)
    (hscope : parse_optional_reset_scope features syntaxes ts = .ok (scope, mid))
    (htarget : parse_config_parameter features syntaxes mid = .ok (target, rest))
    (hend : Ended rest') :
    ((parse_optional_reset_scope features syntaxes >>= fun scope =>
      parse_config_parameter features syntaxes >>= fun target =>
        pure (SessionStatement.Reset (E := E) scope target))
      (set_scope_tokens scope ++ (target.tokens ++ rest'))) = .ok (.Reset scope target, rest') := by
  obtain ⟨first, hhead, hmid⟩ := config_parameter_head hscanned htarget
  rw [bind_apply, reset_scope_written hscope hhead hmid hend, bind_ok, bind_apply,
    config_parameter_written htarget (ended_ne hend (by decide))]
  rfl

theorem show_written {target : ConfigParameter} {verbose : Bool}
    (htarget : parse_config_parameter features syntaxes ts = .ok (target, mid))
    (hverbose : eat_gated syntaxes.show_verbose "verbose" mid = .ok (verbose, rest))
    (hend : Ended rest') :
    ((parse_config_parameter features syntaxes >>= fun target =>
      eat_gated syntaxes.show_verbose "verbose" >>= fun verbose =>
        pure (SessionStatement.Show (E := E) target verbose))
      (target.tokens ++ ((if verbose then [written "verbose"] else []) ++ rest'))) =
        .ok (.Show target verbose, rest') := by
  cases verbose with
  | true =>
    have hgate := gated_true hverbose
    have hdot : (written "verbose" :: rest').head? ≠ some (.punctuation .Dot) := nofun
    have hread : eat_gated syntaxes.show_verbose "verbose" (written "verbose" :: rest') =
        .ok (true, rest') := gated_written hgate (by decide)
    rw [if_pos rfl, List.singleton_append, bind_apply, config_parameter_written htarget hdot,
      bind_ok, bind_apply, hread]
    rfl
  | false =>
    rw [if_neg Bool.false_ne_true, List.nil_append, bind_apply,
      config_parameter_written htarget (ended_ne hend (by decide)), bind_ok, bind_apply,
      ended_gated hend]
    rfl

end squonk.parser.clause.session
