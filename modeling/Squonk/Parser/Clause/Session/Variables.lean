import Squonk.Parser.Clause.Session.Written

/-!
# Variable assignments

The name of a variable is read again wherever it is written. Its value is, where the expression is
not written with a word that the position of a value tests for first.
-/

open squonk.ast squonk.tokenizer squonk.dialect listing listing.Reader

namespace squonk.parser.clause.session

variable {E : Type} {features : FeatureSet} {syntaxes : SessionSyntax}
  {parse_expr : ParseResult E} {write_expr : E → List Token} {ts rest : List Token}

/-- What may stand behind an expression: a comma, or the end of the statement. -/
def Follows (rest : List Token) : Prop := rest.head? = some .comma ∨ Ended rest

/-- What is written for an expression stands for it again. -/
def ReadBack (parse_expr : ParseResult E) (write_expr : E → List Token) (expr : E) : Prop :=
  ∀ rest, Follows rest → parse_expr (write_expr expr ++ rest) = .ok (expr, rest)

/-- The words that the position of a value tests for before it reads an expression. -/
def value_words : List String := "default" :: set_variable_keywords.map Prod.fst

/-- The text of an expression does not start with a word that stands for a value itself. -/
def SetVariableValue.Plain (write_expr : E → List Token) : SetVariableValue E → Prop
  | .Expr expr =>
    ∀ word ∈ value_words, peek_is_contextual_keyword word (write_expr expr) = false
  | _ => True

/-- The expressions of an assignment. -/
def SetVariableAssignment.exprs : SetVariableAssignment E → List E
  | .SystemVariable _ _ _ (.Expr expr) => [expr]
  | .SystemVariable _ _ _ _ => []
  | .UserVariable _ _ expr => [expr]

def SetVariableAssignment.Plain (write_expr : E → List Token) : SetVariableAssignment E → Prop
  | .SystemVariable _ _ _ value => value.Plain write_expr
  | .UserVariable _ _ _ => True

/-- The name of a user variable starts with no sign of its own: two of them are one sign. -/
def SetVariableAssignment.Lexed : SetVariableAssignment E → Prop
  | .UserVariable (.ident (.Word text)) _ _ => text.head? ≠ some '@'
  | _ => True

/-- The assignment with the one spelling that is written. -/
def SetVariableAssignment.canonical : SetVariableAssignment E → SetVariableAssignment E
  | .SystemVariable scope name _ value => .SystemVariable scope name .Equals value
  | .UserVariable name _ value => .UserVariable name .Equals value

/-! ## Values -/

theorem follows_peek (hfollows : Follows rest) (tokens : List Token) (word : String) :
    peek_is_contextual_keyword word (tokens ++ rest) = peek_is_contextual_keyword word tokens := by
  cases tokens with
  | cons t tokens => rfl
  | nil =>
    rw [List.nil_append]
    obtain hcomma | hend := hfollows
    · rw [peek_is_contextual_keyword, hcomma]
      rfl
    · exact ended_peek hend word

theorem head_bind_table {β : Type} {table : List (String × β)}
    (h : ∀ word ∈ table.map Prod.fst, peek_is_contextual_keyword word ts = false) :
    ts.head?.bind (table_value table) = none := by
  cases ts with
  | nil => rfl
  | cons t ts =>
    have hnone : (table_value table t).isSome = false := by
      rw [table_value_isSome, List.any_eq_false]
      intro word hword
      have hword := h word hword
      rw [peek_is_contextual_keyword, List.head?_cons, Option.any_some] at hword
      rw [hword]
      exact Bool.false_ne_true
    rw [List.head?_cons, Option.bind_some]
    exact Option.isSome_eq_false_iff.mp hnone |> Option.isNone_iff_eq_none.mp

theorem set_variable_keyword_value (keyword : SetVariableKeyword) :
    table_value set_variable_keywords (written keyword.word) = some keyword ∧
      keyword.word ∈ words ∧ keyword.word ≠ "default" := by
  cases keyword <;> decide +kernel

theorem set_variable_value_written {value : SetVariableValue E} (hplain : value.Plain write_expr)
    (hback : ∀ expr, value = .Expr expr → ReadBack parse_expr write_expr expr)
    (hfollows : Follows rest) :
    parse_set_variable_value parse_expr (value.tokens write_expr ++ rest) = .ok (value, rest) := by
  cases value with
  | Default =>
    have hread : eat_contextual_keyword "default" (written "default" :: rest) = .ok (true, rest) :=
      eat_written (by decide)
    rw [SetVariableValue.tokens, List.singleton_append, parse_set_variable_value, bind_apply, hread]
    rfl
  | Keyword keyword =>
    obtain ⟨hvalue, hword, hne⟩ := set_variable_keyword_value keyword
    have hread : optional_token (table_value set_variable_keywords)
        (written keyword.word :: rest) = .ok (some keyword, rest) := by
      simp [optional_token_apply, hvalue]
    rw [SetVariableValue.tokens, List.singleton_append, parse_set_variable_value, bind_apply,
      eat_other hword hne, bind_ok, if_neg Bool.false_ne_true, bind_apply, hread]
    rfl
  | Expr expr =>
    have hpeek : ∀ word ∈ value_words,
        peek_is_contextual_keyword word (write_expr expr ++ rest) = false := by
      intro word hword
      rw [follows_peek hfollows]
      exact hplain word hword
    have hnone : optional_token (table_value set_variable_keywords) (write_expr expr ++ rest) =
        .ok (none, write_expr expr ++ rest) := by
      rw [optional_token_apply,
        head_bind_table fun word hword => hpeek word (List.mem_cons_of_mem _ hword)]
      rfl
    rw [SetVariableValue.tokens, parse_set_variable_value, bind_apply,
      eat_absent (hpeek "default" List.mem_cons_self), bind_ok, if_neg Bool.false_ne_true,
      bind_apply, hnone, bind_ok]
    dsimp only
    rw [bind_apply, hback expr rfl rest hfollows]
    rfl

/-- An expression that is read as itself is not written with a word that is tested for. -/
theorem set_variable_value_plain {value : SetVariableValue E} (hfollows : Follows rest)
    {behind : List Token}
    (h : parse_set_variable_value parse_expr (value.tokens write_expr ++ rest) =
      .ok (value, behind)) : value.Plain write_expr := by
  cases value with
  | Default => trivial
  | Keyword keyword => trivial
  | Expr expr =>
    obtain ⟨⟨taken, mid⟩, heat, h⟩ := bind_eq_ok.mp h
    cases taken with
    | true => cases h
    | false =>
      obtain ⟨hdefault, hmid⟩ := eat_false heat
      obtain ⟨⟨found, behind'⟩, hfound, h⟩ := bind_eq_ok.mp h
      cases found with
      | some keyword => cases h
      | none =>
        rw [optional_token_apply, Except.ok.injEq, Prod.mk.injEq] at hfound
        have hnone := hfound.1
        rw [← hmid, SetVariableValue.tokens] at hnone
        rw [SetVariableValue.tokens] at hdefault
        intro word hword
        rw [← follows_peek hfollows]
        obtain rfl | hmem := List.mem_cons.mp hword
        · exact hdefault
        · rw [peek_is_contextual_keyword]
          cases hhead : (write_expr expr ++ rest).head? with
          | none => rfl
          | some t =>
            rw [hhead, Option.bind_some] at hnone
            have hall : (table_value set_variable_keywords t).isSome = _ := table_value_isSome t
            rw [hnone, Option.isSome_none] at hall
            have hwords := List.any_eq_false.mp hall.symm word hmem
            rw [Option.any_some]
            exact Bool.not_eq_true _ ▸ hwords

/-! ## Assignments -/

theorem set_assignment_written (ts : List Token) :
    expect_mysql_set_assignment (.operator .Eq :: ts) = .ok (.Equals, ts) := rfl

/-- The reader of what stands behind a name. -/
def SetVariableAssignment.finish (parse_expr : ParseResult E) :
    SetVariableAssignment E → ParseResult (SetVariableAssignment E)
  | .SystemVariable scope name _ _ => finish_system_variable parse_expr scope name
  | .UserVariable name _ _ => finish_user_variable parse_expr name

/-- What is written for the name of a variable. -/
def SetVariableAssignment.target : SetVariableAssignment E → List Token
  | .SystemVariable scope name _ _ => scope.tokens name
  | .UserVariable name _ _ => user_variable_tokens name

/-- What is written for the value. -/
def SetVariableAssignment.value (write_expr : E → List Token) :
    SetVariableAssignment E → List Token
  | .SystemVariable _ _ _ value => value.tokens write_expr
  | .UserVariable _ _ value => write_expr value

theorem assignment_tokens (item : SetVariableAssignment E) (rest : List Token) :
    item.tokens write_expr ++ rest =
      item.target ++ (.operator .Eq :: (item.value write_expr ++ rest)) := by
  cases item with
  | SystemVariable scope name assignment value | UserVariable name assignment value =>
    simp [SetVariableAssignment.tokens, SetVariableAssignment.target, SetVariableAssignment.value]

theorem finish_written {item : SetVariableAssignment E} (hplain : item.Plain write_expr)
    (hback : ∀ expr ∈ item.exprs, ReadBack parse_expr write_expr expr) (hfollows : Follows rest) :
    item.finish parse_expr (.operator .Eq :: (item.value write_expr ++ rest)) =
      .ok (item.canonical, rest) := by
  cases item with
  | SystemVariable scope name assignment value =>
    have hread : parse_set_variable_value parse_expr (value.tokens write_expr ++ rest) =
        .ok (value, rest) := by
      refine set_variable_value_written hplain ?_ hfollows
      rintro expr rfl
      exact hback expr List.mem_cons_self
    rw [SetVariableAssignment.finish, finish_system_variable, bind_apply, set_assignment_written,
      bind_ok, bind_apply]
    dsimp only
    rw [SetVariableAssignment.value, hread]
    rfl
  | UserVariable name assignment value =>
    have hread := hback value List.mem_cons_self rest hfollows
    rw [SetVariableAssignment.finish, finish_user_variable, bind_apply, set_assignment_written,
      bind_ok, bind_apply]
    dsimp only
    rw [SetVariableAssignment.value, hread]
    rfl

theorem finish_plain {item : SetVariableAssignment E} (hfollows : Follows rest)
    {behind : List Token}
    (h : item.finish parse_expr (.operator .Eq :: (item.value write_expr ++ rest)) =
      .ok (item.canonical, behind)) : item.Plain write_expr := by
  cases item with
  | UserVariable name assignment value => trivial
  | SystemVariable scope name assignment value =>
    rw [SetVariableAssignment.finish, finish_system_variable, bind_apply, set_assignment_written,
      bind_ok] at h
    obtain ⟨⟨found, last⟩, hvalue, heq⟩ := bind_eq_ok.mp h
    cases heq
    exact set_variable_value_plain hfollows hvalue

/-! ## Names -/

/-- The words that a statement is told from stand in front of `text` where they stand in front of
`ts`. None is told from a `TO` in the second place. -/
structure Front (ts text : List Token) : Prop where
  word : ∀ word, peek_is_contextual_keyword word text = peek_is_contextual_keyword word ts
  words : ∀ first second, second ≠ "to" → peek_words first second ts = false →
    peek_words first second text = false

theorem peek_spelled {t c : Token} (h : spelled c = spelled t) (word : String) (rest : List Token) :
    peek_is_contextual_keyword word (c :: ts) = peek_is_contextual_keyword word (t :: rest) := by
  rw [peek_is_contextual_keyword, peek_is_contextual_keyword, List.head?_cons, List.head?_cons,
    Option.any_some, Option.any_some, token_is_contextual_keyword, token_is_contextual_keyword, h]

theorem name_token_ne (name : Name) (punct : Punctuation) : name.token ≠ .punctuation punct := by
  cases name with
  | text raw => exact Token.noConfusion
  | ident name => cases name <;> exact Token.noConfusion

theorem variable_text_name (name : Name) : variable_text syntaxes name.token = none := by
  cases name with
  | text raw => rfl
  | ident name => cases name <;> rfl

theorem eat_at_other (h : ts.head? ≠ some (.punctuation .At)) :
    eat_at syntaxes ts = .ok (false, ts) := by
  rw [eat_at]
  cases syntaxes.user_variables with
  | false => rfl
  | true => exact eat_punct_absent h

theorem lvalue_name_written {name : ObjectName}
    (h : parse_set_lvalue_name features syntaxes ts = .ok (name, rest)) :
    (∃ first parts t behind, name = first :: parts ∧ ts = t :: behind ∧
      spelled first.token = spelled t) ∧
    ∀ rest' : List Token, rest'.head? ≠ some (.punctuation .Dot) →
      parse_set_lvalue_name features syntaxes (object_name_tokens name ++ rest') =
        .ok (name, rest') := by
  rw [parse_set_lvalue_name, bind_apply, look_apply, bind_ok] at h
  cases hdefault : (peek_is_contextual_keyword "default" ts && peek_is_punct .Dot ts.tail) with
  | true =>
    rw [hdefault, if_pos rfl] at h
    obtain ⟨⟨⟨⟩, mid⟩, hword, h⟩ := bind_eq_ok.mp h
    obtain ⟨⟨⟨⟩, behind⟩, -, h⟩ := bind_eq_ok.mp h
    obtain ⟨⟨second, last⟩, hsecond, heq⟩ := bind_eq_ok.mp h
    cases heq
    obtain ⟨⟨taken, _⟩, heat, hrest⟩ := bind_eq_ok.mp hword
    cases taken with
    | false => cases hrest
    | true =>
      cases hrest
      obtain ⟨t, rfl, htest⟩ := accept_eq_true heat
      have hspelled : spelled t = some "default".toList := beq_iff_eq.mp htest
      refine ⟨⟨_, _, t, mid, rfl, rfl, hspelled.symm⟩, ?_⟩
      intro rest' _
      have hexpect : ∀ ts, expect_contextual_keyword "default" (.keyword .Default :: ts) =
          .ok ((), ts) := fun _ => expect_apply rfl
      have htext : object_name_tokens [.ident (.Keyword .Default), .ident second] ++ rest' =
          .keyword .Default :: .punctuation .Dot :: expr.ident_token second :: rest' := rfl
      rw [htext, parse_set_lvalue_name, bind_apply, look_apply, bind_ok]
      have hlook : (peek_is_contextual_keyword "default" (.keyword .Default :: .punctuation .Dot ::
          expr.ident_token second :: rest') && peek_is_punct .Dot (Token.keyword .Default ::
            .punctuation .Dot :: expr.ident_token second :: rest').tail) = true := rfl
      rw [hlook, if_pos rfl, bind_apply, hexpect, bind_ok, bind_apply, expect_punct_same, bind_ok,
        bind_apply, ident_written hsecond]
      rfl
  | false =>
    rw [hdefault, if_neg Bool.false_ne_true] at h
    dsimp only at h
    obtain ⟨⟨first, parts, rfl, hts, -⟩, hsplit, hall⟩ := object_name_written h
    refine ⟨⟨first, parts, first.token, _, rfl, hsplit, rfl⟩, ?_⟩
    intro rest' hdot
    have hlook : (peek_is_contextual_keyword "default" (object_name_tokens (first :: parts) ++
        rest') && peek_is_punct .Dot (object_name_tokens (first :: parts) ++ rest').tail) =
          false := by
      cases parts with
      | cons part parts =>
        rw [hsplit] at hdefault
        exact hdefault
      | nil =>
        have hbehind : peek_is_punct .Dot (object_name_tokens [first] ++ rest').tail = false :=
          beq_false_of_ne hdot
        rw [hbehind, Bool.and_false]
    rw [parse_set_lvalue_name, bind_apply, look_apply, bind_ok, hlook, if_neg Bool.false_ne_true]
    exact hall rest' hdot

theorem scope_kind_word (kind : SystemVariableScopeKind) :
    table_value system_variable_scope_kinds (written kind.word) = some kind ∧
      system_variable_scope_kind kind.word.toList = some kind ∧ kind.word ∈ words ∧
      '.' ∉ kind.word.toList := by
  cases kind <;> decide +kernel

theorem scope_kind_of_word {t : Token} {kind : SystemVariableScopeKind}
    (h : table_value system_variable_scope_kinds t = some kind) :
    spelled t = some kind.word.toList := by
  have hall : ∀ entry ∈ system_variable_scope_kinds, entry.1 = entry.2.word := by
    simp [system_variable_scope_kinds, SystemVariableScopeKind.word]
  obtain ⟨word, hmem, hspelled⟩ := table_value_eq_some h
  have hword := hall _ hmem
  dsimp only at hword
  rw [hspelled, hword]

theorem dotted_text_from (text : List Char) : dotted_text (object_name_from_dotted text) = text := by
  have hmap : (object_name_from_dotted text).map name_text = text.splitOn '.' := by
    rw [object_name_from_dotted, List.map_map]
    exact List.map_id _
  rw [dotted_text, hmap, List.intercalate_splitOn]

theorem takeWhile_word {word : List Char} (h : '.' ∉ word) (text : List Char) :
    (word ++ '.' :: text).takeWhile (· != '.') = word ∧
      (word ++ '.' :: text).dropWhile (· != '.') = '.' :: text := by
  have hall : ∀ c ∈ word, (c != '.') = true := by
    intro c hc
    rw [bne_iff_ne]
    rintro rfl
    exact h hc
  rw [List.takeWhile_append_of_pos hall, List.dropWhile_append_of_pos hall]
  simp

/-- The text of `@@` variable names its scope and its name again. -/
theorem at_at_written (text : List Char) :
    ∃ text', (at_at_variable text).1.tokens (at_at_variable text).2 =
        [.parameter ('@' :: '@' :: text')] ∧ at_at_variable text' = at_at_variable text := by
  have hplain : at_at_variable text = (.AtAt, object_name_from_dotted text) →
      ∃ text', (at_at_variable text).1.tokens (at_at_variable text).2 =
        [.parameter ('@' :: '@' :: text')] ∧ at_at_variable text' = at_at_variable text := by
    intro h
    refine ⟨text, ?_, rfl⟩
    rw [h, SystemVariableScope.tokens, dotted_text_from]
    rfl
  cases hkind : system_variable_scope_kind (text.takeWhile (· != '.')) with
  | none =>
    apply hplain
    simp [at_at_variable, hkind]
  | some kind =>
    cases htail : text.dropWhile (· != '.') with
    | nil =>
      apply hplain
      simp [at_at_variable, hkind, htail]
    | cons c tail =>
      by_cases hc : c = '.'
      · subst hc
        have hscoped : at_at_variable text = (.AtAtScoped kind, object_name_from_dotted tail) := by
          simp [at_at_variable, hkind, htail]
        obtain ⟨-, hword, -, hdot⟩ := scope_kind_word kind
        obtain ⟨htake, hdrop⟩ := takeWhile_word hdot tail
        refine ⟨kind.word.toList ++ '.' :: tail, ?_, ?_⟩
        · rw [hscoped, SystemVariableScope.tokens, dotted_text_from]
          simp
        · rw [hscoped]
          simp [at_at_variable, htake, hdrop, hword]
      · have hhead := List.head?_dropWhile_not (· != '.') text
        rw [htail] at hhead
        simp [hc] at hhead

/-! ## Targets -/

/-- No word stands in front of a variable. -/
theorem front_of_none {text : List Token} {t c : Token} (hts : ts = t :: rest)
    (ht : spelled t = none) (hc : spelled c = none) : Front ts (c :: text) := by
  subst hts
  have hfirst : ∀ word, peek_is_contextual_keyword word (c :: text) = false := by
    intro word
    rw [peek_is_contextual_keyword, List.head?_cons, Option.any_some, token_is_contextual_keyword,
      hc]
    rfl
  constructor
  · intro word
    exact peek_spelled (hc.trans ht.symm) word rest
  · intro first second _ _
    rw [peek_words, hfirst, Bool.false_and]

/-- A word is written for itself, in front of what starts with the same word. -/
theorem front_cons {t c : Token} {text : List Token} (hspelled : spelled c = spelled t)
    (htext : ∀ word, peek_is_contextual_keyword word text = peek_is_contextual_keyword word ts) :
    Front (t :: ts) (c :: text) := by
  constructor
  · intro word
    exact peek_spelled hspelled word ts
  · intro first second _ hnot
    have hfirst : peek_is_contextual_keyword first (c :: text) = _ :=
      peek_spelled hspelled first ts
    have hsecond : peek_nth_is_contextual_keyword 1 second (c :: text) =
        peek_nth_is_contextual_keyword 1 second (t :: ts) := by
      have hword := htext second
      rw [peek_is_contextual_keyword, peek_is_contextual_keyword, List.head?_eq_getElem?,
        List.head?_eq_getElem?] at hword
      exact hword
    rw [peek_words] at hnot ⊢
    rw [hfirst, hsecond]
    exact hnot

/-- Behind a name stands no word but `TO`. -/
theorem front_of_name {name : ObjectName} {text : List Token}
    (h : ∃ first parts t behind, name = first :: parts ∧ ts = t :: behind ∧
      spelled first.token = spelled t)
    (htext : ∀ word, word ≠ "to" → peek_is_contextual_keyword word text = false) :
    Front ts (object_name_tokens name ++ text) := by
  obtain ⟨first, parts, t, behind, rfl, rfl, hspelled⟩ := h
  constructor
  · intro word
    exact peek_spelled hspelled word behind
  · intro first' second hne _
    rw [peek_words, object_name_second (List.cons_ne_nil first parts) (htext second hne),
      Bool.and_false]

theorem finish_user {name : Name} {item : SetVariableAssignment E}
    (h : finish_user_variable parse_expr name ts = .ok (item, rest)) :
    ∃ assignment value, item = .UserVariable name assignment value := by
  obtain ⟨⟨assignment, mid⟩, -, h⟩ := bind_eq_ok.mp h
  obtain ⟨⟨value, last⟩, -, heq⟩ := bind_eq_ok.mp h
  cases heq
  exact ⟨assignment, value, rfl⟩

theorem finish_system {scope : SystemVariableScope} {name : ObjectName}
    {item : SetVariableAssignment E}
    (h : finish_system_variable parse_expr scope name ts = .ok (item, rest)) :
    ∃ assignment value, item = .SystemVariable scope name assignment value := by
  obtain ⟨⟨assignment, mid⟩, -, h⟩ := bind_eq_ok.mp h
  obtain ⟨⟨value, last⟩, -, heq⟩ := bind_eq_ok.mp h
  cases heq
  exact ⟨assignment, value, rfl⟩

/-- The token of a variable is read as one. -/
theorem variable_item {text : List Char}
    (h : variable_text syntaxes (.parameter ('@' :: text)) = some text) (rest : List Token) :
    parse_mysql_set_item features syntaxes parse_expr (.parameter ('@' :: text) :: rest) =
      (match text with
        | '@' :: text =>
          finish_system_variable parse_expr (at_at_variable text).1 (at_at_variable text).2
        | text => finish_user_variable parse_expr (.ident (.Word text))) rest := by
  have hread : optional_token (variable_text syntaxes) (.parameter ('@' :: text) :: rest) =
      .ok (some text, rest) := by
    simp [optional_token_apply, h]
  have hat : eat_at syntaxes (.parameter ('@' :: text) :: rest) =
      .ok (false, .parameter ('@' :: text) :: rest) := by
    apply eat_at_other
    simp
  rw [parse_mysql_set_item, bind_apply, hat, bind_ok, if_neg Bool.false_ne_true, bind_apply, hread,
    bind_ok]
  cases text with
  | nil => rfl
  | cons c text =>
    by_cases hc : c = '@'
    · subst hc
      rfl
    · simp [hc]

/-- A name that a variable is written with behind `@`. -/
theorem user_variable_item {name : Name} (husers : syntaxes.user_variables = true)
    (hname : (∃ text, name = .ident (.Word text) ∧ text.head? ≠ some '@') ∨
      user_variable_tokens name = [.punctuation .At, name.token] ∧
        ident_or_text features name.token = some name) (rest : List Token) :
    parse_mysql_set_item features syntaxes parse_expr (user_variable_tokens name ++ rest) =
      finish_user_variable parse_expr name rest := by
  obtain ⟨text, rfl, hat⟩ | ⟨htokens, hmeans⟩ := hname
  · have htext : variable_text syntaxes (.parameter ('@' :: text)) = some text := by
      simp [variable_text, is_variable, husers]
    rw [user_variable_tokens, List.singleton_append, variable_item htext]
    split
    · exact absurd rfl hat
    · rfl
  · have hat : eat_at syntaxes (.punctuation .At :: name.token :: rest) =
        .ok (true, name.token :: rest) := by
      rw [eat_at, husers, if_pos rfl, eat_punct, accept_cons, beq_self_eq_true]
      rfl
    have hread : token (ident_or_text features) "an identifier" (name.token :: rest) =
        .ok (name, rest) := token_cons hmeans
    rw [htokens, List.cons_append, List.singleton_append, parse_mysql_set_item, bind_apply, hat,
      bind_ok, if_pos rfl, bind_apply, hread]
    rfl

theorem ident_or_text_written {t : Token} {name : Name}
    (hlexed : ∀ text, name = .ident (.Word text) → text.head? ≠ some '@')
    (h : ident_or_text features t = some name) :
    (∃ text, name = .ident (.Word text) ∧ text.head? ≠ some '@') ∨
      user_variable_tokens name = [.punctuation .At, name.token] ∧
        ident_or_text features name.token = some name := by
  rw [ident_or_text] at h
  cases halias : string_alias t with
  | some found =>
    rw [halias, Option.some_or] at h
    cases h
    obtain ⟨raw, rfl⟩ : ∃ raw, t = .string raw := by
      cases t with
      | string raw => exact ⟨raw, rfl⟩
      | _ => cases halias
    have htoken := string_alias_token halias
    right
    rw [← htoken]
    cases name with
    | ident name => cases name <;> cases htoken
    | text text =>
      cases htoken
      refine ⟨rfl, ?_⟩
      rw [ident_or_text, halias, Option.some_or]
  | none =>
    rw [halias, Option.none_or] at h
    obtain ⟨ident, hident, rfl⟩ := Option.map_eq_some_iff.mp h
    have htoken := expr.column_name_token hident
    cases ident with
    | Word text => exact .inl ⟨text, rfl, hlexed text rfl⟩
    | Keyword keyword => exact .inl ⟨_, rfl, hlexed _ rfl⟩
    | Quoted text =>
      subst htoken
      right
      refine ⟨rfl, ?_⟩
      rfl

theorem variable_text_some {t : Token} {text : List Char}
    (h : variable_text syntaxes t = some text) :
    t = .parameter ('@' :: text) ∧ (text.head? ≠ some '@' → syntaxes.user_variables = true) := by
  cases t with
  | parameter whole =>
    rw [variable_text] at h
    split at h
    · rename_i hvariable
      cases h
      rw [is_variable, Bool.or_eq_true, Bool.and_eq_true, beq_iff_eq, beq_iff_eq] at hvariable
      obtain hat | ⟨husers, hat⟩ := hvariable
      · cases whole with
        | nil => cases hat
        | cons c text =>
          cases text with
          | nil => simp at hat
          | cons c' text =>
            simp only [List.take_succ_cons, List.take_zero, List.cons.injEq, and_true] at hat
            obtain ⟨rfl, rfl⟩ := hat
            exact ⟨rfl, fun hne => absurd rfl hne⟩
      · obtain ⟨text, rfl⟩ := List.head?_eq_some_iff.mp hat
        exact ⟨rfl, fun _ => husers⟩
    · cases h
  | _ => cases h

theorem user_variable_front {name : Name} {t : Token} {text : List Token}
    (hname : (∃ text, name = .ident (.Word text) ∧ text.head? ≠ some '@') ∨
      user_variable_tokens name = [.punctuation .At, name.token] ∧
        ident_or_text features name.token = some name) (hts : ts = t :: rest)
    (ht : spelled t = none) : Front ts (user_variable_tokens name ++ text) := by
  obtain ⟨word, rfl, -⟩ | ⟨htokens, -⟩ := hname
  · exact front_of_none hts ht rfl
  · rw [htokens]
    exact front_of_none hts ht rfl

/-- The reader of a name that is written with its own tokens. -/
theorem named_item {name : ObjectName} {t : Token} {behind : List Token}
    (hname : ∃ first parts t behind, name = first :: parts ∧ ts = t :: behind ∧
      spelled first.token = spelled t) (hts : ts = t :: behind)
    (hkind : table_value system_variable_scope_kinds t = none)
    (hread : ∀ rest' : List Token, rest'.head? ≠ some (.punctuation .Dot) →
      parse_set_lvalue_name features syntaxes (object_name_tokens name ++ rest') =
        .ok (name, rest')) {text : List Token} (htext : text.head? ≠ some (.punctuation .Dot)) :
    parse_mysql_set_item features syntaxes parse_expr (object_name_tokens name ++ text) =
      finish_system_variable parse_expr .Implicit name text := by
  obtain ⟨first, parts, t', behind', rfl, hts', hspelled⟩ := hname
  rw [hts] at hts'
  cases hts'
  have hhead : (object_name_tokens (first :: parts) ++ text).head? = some first.token := rfl
  have hat : eat_at syntaxes (object_name_tokens (first :: parts) ++ text) =
      .ok (false, object_name_tokens (first :: parts) ++ text) := by
    apply eat_at_other
    rw [hhead]
    intro hpunct
    exact name_token_ne first .At (Option.some.inj hpunct)
  have hvariable : optional_token (variable_text syntaxes)
      (object_name_tokens (first :: parts) ++ text) =
        .ok (none, object_name_tokens (first :: parts) ++ text) :=
    optional_head rfl (variable_text_name first) text
  have hscope : eat_system_variable_scope_keyword (object_name_tokens (first :: parts) ++ text) =
      .ok (none, object_name_tokens (first :: parts) ++ text) := by
    refine optional_head (t := first.token) rfl ?_ text
    rw [table_value_spelled hspelled, hkind]
  rw [parse_mysql_set_item, bind_apply, hat, bind_ok, if_neg Bool.false_ne_true, bind_apply,
    hvariable, bind_ok]
  dsimp only
  rw [bind_apply, hscope, bind_ok]
  dsimp only
  rw [bind_apply, hread text htext, bind_ok]

theorem scoped_item {name : ObjectName} {kind : SystemVariableScopeKind}
    (hread : ∀ rest' : List Token, rest'.head? ≠ some (.punctuation .Dot) →
      parse_set_lvalue_name features syntaxes (object_name_tokens name ++ rest') =
        .ok (name, rest')) {text : List Token} (htext : text.head? ≠ some (.punctuation .Dot)) :
    parse_mysql_set_item features syntaxes parse_expr
        ((SystemVariableScope.Keyword kind).tokens name ++ text) =
      finish_system_variable parse_expr (.Keyword kind) name text := by
  obtain ⟨hvalue, -, hword, -⟩ := scope_kind_word kind
  have hspelled := spelled_written hword
  have hwritten : (SystemVariableScope.Keyword kind).tokens name ++ text =
      written kind.word :: (object_name_tokens name ++ text) := rfl
  have hat : ∀ ts, eat_at syntaxes (written kind.word :: ts) = .ok (false, written kind.word :: ts) := by
    intro ts
    apply eat_at_other
    rw [List.head?_cons]
    intro hpunct
    rw [Option.some.inj hpunct] at hspelled
    cases hspelled
  have hvariable : ∀ ts, optional_token (variable_text syntaxes) (written kind.word :: ts) =
      .ok (none, written kind.word :: ts) := by
    intro ts
    have hnone : variable_text syntaxes (written kind.word) = none := by
      cases kind <;> rfl
    simp [optional_token_apply, hnone]
  have hscope : ∀ ts, eat_system_variable_scope_keyword (written kind.word :: ts) =
      .ok (some kind, ts) := by
    intro ts
    simp [eat_system_variable_scope_keyword, optional_token_apply, hvalue]
  rw [hwritten, parse_mysql_set_item, bind_apply, hat, bind_ok, if_neg Bool.false_ne_true,
    bind_apply, hvariable, bind_ok]
  dsimp only
  rw [bind_apply, hscope, bind_ok]
  dsimp only
  rw [bind_apply, hread text htext, bind_ok]

/-- The name of a variable is read again where it is written, and the words in front of it are those
that stood there. -/
theorem target_written {item : SetVariableAssignment E} (hlexed : item.Lexed)
    (h : parse_mysql_set_item features syntaxes parse_expr ts = .ok (item, rest))
    {text : List Token} (htext : text.head? = some (.operator .Eq)) :
    parse_mysql_set_item features syntaxes parse_expr (item.target ++ text) =
        item.finish parse_expr text ∧ Front ts (item.target ++ text) := by
  have hdot : text.head? ≠ some (.punctuation .Dot) := by
    rw [htext]
    simp
  obtain ⟨⟨at_sign, mid⟩, hat, hitem⟩ := bind_eq_ok.mp h
  clear h
  cases at_sign with
  | true =>
    have husers : syntaxes.user_variables = true := by
      cases hgate : syntaxes.user_variables with
      | true => rfl
      | false =>
        rw [eat_at, hgate] at hat
        cases hat
    rw [eat_at, husers, if_pos rfl] at hat
    obtain ⟨t, rfl, htest⟩ := accept_eq_true hat
    obtain ⟨⟨name, behind⟩, hname, hfinish⟩ := bind_eq_ok.mp hitem
    obtain ⟨t', rfl, hmeans⟩ := token_eq_ok hname
    obtain ⟨assignment, value, rfl⟩ := finish_user hfinish
    have hname : ∀ text, name = .ident (.Word text) → text.head? ≠ some '@' := by
      rintro text rfl
      exact hlexed
    have hwritten := ident_or_text_written hname hmeans
    have ht : spelled t = none := by
      rw [beq_iff_eq.mp htest]
      rfl
    exact ⟨user_variable_item husers hwritten text, user_variable_front hwritten rfl ht⟩
  | false =>
    have hmid : ts = mid := by
      rw [eat_at] at hat
      cases hgate : syntaxes.user_variables with
      | true =>
        rw [hgate, if_pos rfl] at hat
        exact (accept_eq_false hat).2
      | false =>
        rw [hgate] at hat
        cases hat
        rfl
    subst hmid
    obtain ⟨⟨found, behind⟩, hfound, h⟩ := bind_eq_ok.mp hitem
    clear hitem
    rw [optional_token_apply, Except.ok.injEq, Prod.mk.injEq] at hfound
    obtain ⟨hbind, hbehind⟩ := hfound
    cases found with
    | some variable_name =>
      obtain ⟨t, hts, hmeans⟩ := Option.bind_eq_some_iff.mp hbind
      obtain ⟨tail, rfl⟩ := List.head?_eq_some_iff.mp hts
      obtain ⟨rfl, husers⟩ := variable_text_some hmeans
      by_cases hsystem : variable_name.head? = some '@'
      · obtain ⟨name_text, rfl⟩ := List.head?_eq_some_iff.mp hsystem
        have hfinish : finish_system_variable parse_expr (at_at_variable name_text).1
            (at_at_variable name_text).2 behind = .ok (item, rest) := h
        obtain ⟨assignment, value, rfl⟩ := finish_system hfinish
        obtain ⟨text', htokens, hsame⟩ := at_at_written name_text
        have hmeans' : variable_text syntaxes (.parameter ('@' :: '@' :: text')) =
            some ('@' :: text') := rfl
        rw [SetVariableAssignment.target, htokens, List.singleton_append]
        refine ⟨?_, front_of_none rfl rfl rfl⟩
        rw [variable_item hmeans']
        exact congrArg (fun p => finish_system_variable parse_expr p.1 p.2 text) hsame
      · have hfinish : finish_user_variable parse_expr (.ident (.Word variable_name)) behind =
            .ok (item, rest) := by
          cases variable_name with
          | nil => exact h
          | cons c name =>
            have hc : c ≠ '@' := by
              rintro rfl
              exact hsystem rfl
            simpa [hc] using h
        obtain ⟨assignment, value, rfl⟩ := finish_user hfinish
        have hwritten : (∃ text, Name.ident (.Word variable_name) = .ident (.Word text) ∧
            text.head? ≠ some '@') ∨ user_variable_tokens (.ident (.Word variable_name)) =
              [.punctuation .At, (Name.ident (.Word variable_name)).token] ∧ ident_or_text features
                (Name.ident (.Word variable_name)).token = some (.ident (.Word variable_name)) :=
          .inl ⟨variable_name, rfl, hsystem⟩
        exact ⟨user_variable_item (husers hsystem) hwritten text,
          user_variable_front hwritten rfl rfl⟩
    | none =>
      rw [hbind, Option.isSome_none, if_neg Bool.false_ne_true] at hbehind
      subst hbehind
      obtain ⟨⟨found, behind⟩, hfound, h⟩ := bind_eq_ok.mp h
      rw [eat_system_variable_scope_keyword, optional_token_apply, Except.ok.injEq,
        Prod.mk.injEq] at hfound
      obtain ⟨hkind, hbehind⟩ := hfound
      obtain ⟨⟨name, last⟩, hname, hfinish⟩ : ∃ p, parse_set_lvalue_name features syntaxes behind =
          .ok p ∧ finish_system_variable parse_expr
            (found.elim .Implicit SystemVariableScope.Keyword) p.1 p.2 = .ok (item, rest) := by
        cases found with
        | none => exact bind_eq_ok.mp h
        | some kind => exact bind_eq_ok.mp h
      obtain ⟨assignment, value, rfl⟩ := finish_system hfinish
      obtain ⟨hfront, hread⟩ := lvalue_name_written hname
      cases found with
      | none =>
        rw [hkind, Option.isSome_none, if_neg Bool.false_ne_true] at hbehind
        subst hbehind
        obtain ⟨first, parts, t, behind, rfl, rfl, hspelled⟩ := hfront
        have hnamed : parse_mysql_set_item features syntaxes parse_expr
            (object_name_tokens (first :: parts) ++ text) = _ :=
          named_item ⟨first, parts, t, behind, rfl, rfl, hspelled⟩ rfl hkind hread hdot
        have hnone : ∀ word, word ≠ "to" → peek_is_contextual_keyword word text = false := by
          intro word _
          rw [peek_is_contextual_keyword, htext]
          rfl
        exact ⟨hnamed, front_of_name ⟨first, parts, t, behind, rfl, rfl, hspelled⟩ hnone⟩
      | some kind =>
        obtain ⟨t, hts, hmeans⟩ := Option.bind_eq_some_iff.mp hkind
        obtain ⟨tail, rfl⟩ := List.head?_eq_some_iff.mp hts
        rw [hkind, Option.isSome_some, if_pos rfl, List.tail_cons] at hbehind
        subst hbehind
        refine ⟨scoped_item hread hdot, ?_⟩
        obtain ⟨-, -, hword, -⟩ := scope_kind_word kind
        have hspelled : spelled (written kind.word) = spelled t :=
          (spelled_written hword).trans (scope_kind_of_word hmeans).symm
        obtain ⟨first, parts, t', behind, rfl, rfl, hfirst⟩ := hfront
        exact front_cons hspelled fun word => peek_spelled hfirst word behind

/-! ## Lists -/

theorem set_item_written {item : SetVariableAssignment E} (hlexed : item.Lexed)
    (h : parse_mysql_set_item features syntaxes parse_expr ts = .ok (item, rest))
    (hback : ∀ expr ∈ item.exprs, ReadBack parse_expr write_expr expr)
    (hplain : item.Plain write_expr) {rest' : List Token} (hfollows : Follows rest') :
    parse_mysql_set_item features syntaxes parse_expr (item.tokens write_expr ++ rest') =
      .ok (item.canonical, rest') := by
  rw [assignment_tokens, (target_written hlexed h rfl).1]
  exact finish_written hplain hback hfollows

theorem set_item_plain {item : SetVariableAssignment E} (hlexed : item.Lexed)
    (h : parse_mysql_set_item features syntaxes parse_expr ts = .ok (item, rest))
    {rest' behind : List Token} (hfollows : Follows rest')
    (hread : parse_mysql_set_item features syntaxes parse_expr (item.tokens write_expr ++ rest') =
      .ok (item.canonical, behind)) : item.Plain write_expr := by
  rw [assignment_tokens, (target_written hlexed h rfl).1] at hread
  exact finish_plain hfollows hread

end squonk.parser.clause.session
