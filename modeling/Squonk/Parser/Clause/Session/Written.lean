import Squonk.Parser.Clause.Session

/-!
# Reading the parts of a session statement

Each part of a statement is read again from what is written for it, in front of everything that
does not continue it.
-/

open squonk.ast squonk.tokenizer squonk.dialect listing listing.Reader

namespace squonk.parser.clause.session

variable {E : Type} {features : FeatureSet} {syntaxes : SessionSyntax} {ts rest : List Token}

/-! ## Words -/

/-- The words that the statements are written with. -/
def words : List String :=
  ["set", "reset", "show", "constraints", "names", "session", "characteristics", "resource",
   "group", "charset", "character", "role", "time", "zone", "authorization", "local", "global",
   "default", "none", "all", "deferred", "immediate", "as", "transaction", "isolation", "level",
   "read", "uncommitted", "committed", "repeatable", "serializable", "only", "write", "not",
   "deferrable", "collate", "for", "to", "verbose", "persist", "persist_only", "on", "binary",
   "row", "system"]

theorem spelled_written {word : String} (h : word ∈ words) :
    spelled (written word) = some word.toList := by
  have hall : ∃ texts, letters.Letters words texts ∧ texts.all in_lower_case = true := by
    apply Exists.intro
    apply And.intro
    · unfold words
      repeat apply letters.Letters.cons rfl
      exact .nil
    · decide
  obtain ⟨_, hletters, hlower⟩ := hall
  exact spelled_written_lower (hletters.all hlower word h)

theorem eat_written {word : String} (h : word ∈ words) :
    eat_contextual_keyword word (written word :: ts) = .ok (true, ts) :=
  eat_apply (spelled_written h)

theorem expect_written {word : String} (h : word ∈ words) :
    expect_contextual_keyword word (written word :: ts) = .ok ((), ts) :=
  expect_apply (spelled_written h)

theorem peek_written {word : String} (h : word ∈ words) (expected : String) :
    peek_is_contextual_keyword expected (written word :: ts) = (word == expected) :=
  peek_contextual_cons (spelled_written h) expected ts

theorem eat_absent {word : String} (h : peek_is_contextual_keyword word ts = false) :
    eat_contextual_keyword word ts = .ok (false, ts) := accept_apply_false h

theorem eat_false {word : String} (h : eat_contextual_keyword word ts = .ok (false, rest)) :
    peek_is_contextual_keyword word ts = false ∧ ts = rest := accept_eq_false h

theorem eat_other {word other : String} (h : word ∈ words) (hne : word ≠ other) :
    eat_contextual_keyword other (written word :: ts) = .ok (false, written word :: ts) := by
  apply eat_absent
  rw [peek_written h]
  exact beq_false_of_ne hne

/-! ## Values -/

theorem set_parameter_token_tokens {t : Token} {value : SetParameterValue}
    (h : set_parameter_token syntaxes t = some value) : value.tokens = [t] := by
  rw [set_parameter_token.eq_def] at h
  split at h
  · cases h
    rw [SetParameterValue.tokens]
    rfl
  · split at h
    · cases h
      rw [SetParameterValue.tokens]
    · cases h
  · split at h
    · cases h
    · cases h
      rw [SetParameterValue.tokens]
  · obtain ⟨name, hname, rfl⟩ := Option.map_eq_some_iff.mp h
    rw [SetParameterValue.tokens, ← label_token hname]

theorem sign_token_eq {t : Token} {sign : Operator} (h : sign_token t = some sign) :
    t = .operator sign := by
  rw [sign_token.eq_def] at h
  split at h <;> cases h <;> rfl

theorem list_tokens_eq (values : List SetParameterValue) :
    list_tokens values = comma_list SetParameterValue.tokens values := by
  have htail : ∀ values : List SetParameterValue, list_tail_tokens values =
      values.flatMap fun value => .comma :: value.tokens := by
    intro values
    induction values with
    | nil => rw [list_tail_tokens, List.flatMap_nil]
    | cons value values ih => rw [list_tail_tokens, ih, List.flatMap_cons, List.cons_append]
  cases values with
  | nil => rw [list_tokens, comma_list]
  | cons value values => rw [list_tokens, htail, comma_list]

theorem expect_punct_same {punct : Punctuation} {error : String} :
    expect_punct punct error (.punctuation punct :: ts) = .ok ((), ts) := by
  have heat : eat_punct punct (.punctuation punct :: ts) = .ok (true, ts) := by
    rw [eat_punct, accept_cons, beq_self_eq_true]
    rfl
  rw [expect_punct, bind_apply, heat]
  rfl

theorem expect_punct_eq_ok {punct : Punctuation} {error : String}
    (h : expect_punct punct error ts = .ok ((), rest)) : ts = .punctuation punct :: rest := by
  obtain ⟨⟨taken, mid⟩, heat, h⟩ := bind_eq_ok.mp h
  cases taken with
  | false => cases h
  | true =>
    cases h
    obtain ⟨t, rfl, ht⟩ := accept_eq_true heat
    rw [beq_iff_eq.mp ht]

theorem peek_punct_self (punct : Punctuation) :
    peek_is_punct punct (.punctuation punct :: ts) = true := beq_self_eq_true _

theorem token_eq_ok {α : Type} {means : Token → Option α} {error : String} {a : α}
    (h : token means error ts = .ok (a, rest)) : ∃ t, ts = t :: rest ∧ means t = some a := by
  rw [token_apply] at h
  cases ts with
  | nil => cases h
  | cons t ts =>
    cases hmeans : means t with
    | none => simp [hmeans] at h
    | some found =>
      simp only [List.head?_cons, Option.bind_some, hmeans, Option.elim_some, List.tail_cons,
        Except.ok.injEq, Prod.mk.injEq] at h
      obtain ⟨rfl, rfl⟩ := h
      exact ⟨t, rfl, hmeans⟩

theorem token_cons {α : Type} {means : Token → Option α} {error : String} {a : α} {t : Token}
    (h : means t = some a) : token means error (t :: ts) = .ok (a, ts) := by
  simp [token_apply, h]

/-- A value is taken as it is written, whatever stands behind it. -/
theorem set_parameter_value_written {fuel : Nat} {value : SetParameterValue}
    (h : parse_set_parameter_value syntaxes fuel ts = .ok (value, rest)) :
    (∃ t, ts.head? = some t ∧ value.tokens.head? = some t) ∧ ∀ rest',
      parse_set_parameter_value syntaxes fuel (value.tokens ++ rest') = .ok (value, rest') := by
  induction fuel generalizing ts value rest with
  | zero => cases h
  | succ fuel ih =>
    rw [parse_set_parameter_value, bind_apply, look_apply, bind_ok] at h
    cases hlist : (syntaxes.collection_literals && peek_is_punct .LBracket ts) with
    | true =>
      rw [hlist, if_pos rfl] at h
      obtain ⟨⟨⟨⟩, mid⟩, hopen, h⟩ := bind_eq_ok.mp h
      obtain ⟨⟨values, behind⟩, hvalues, h⟩ := bind_eq_ok.mp h
      obtain ⟨⟨⟨⟩, last⟩, hclose, heq⟩ := bind_eq_ok.mp h
      cases heq
      have hts := expect_punct_eq_ok hopen
      subst hts
      rw [SetParameterValue.tokens]
      refine ⟨⟨_, rfl, rfl⟩, ?_⟩
      intro rest'
      have hcollection := (Bool.and_eq_true_iff.mp hlist).1
      rw [bind_apply, look_apply, bind_ok] at hvalues
      have hread : (do
            if ← look (peek_is_punct .RBracket) then return []
            else parse_comma_separated (parse_set_parameter_value syntaxes fuel)
            : ParseResult (List SetParameterValue))
          (list_tokens values ++ (.punctuation .RBracket :: rest')) =
            .ok (values, .punctuation .RBracket :: rest') := by
        rw [bind_apply, look_apply, bind_ok]
        cases hempty : peek_is_punct .RBracket mid with
        | true =>
          rw [hempty, if_pos rfl] at hvalues
          cases hvalues
          rw [list_tokens, List.nil_append, peek_punct_self]
          rfl
        | false =>
          rw [hempty, if_neg Bool.false_ne_true] at hvalues
          obtain ⟨head, tail, mid', rfl, hhead, hitems⟩ := comma_separated_mem hvalues
          have hfirst : (list_tokens (head :: tail) ++ Token.punctuation .RBracket :: rest').head? =
              mid.head? := by
            obtain ⟨⟨t, hmid, htokens⟩, -⟩ := ih hhead
            rw [list_tokens_eq, comma_list, List.append_assoc, List.head?_append, htokens, hmid]
            rfl
          have hnone : peek_is_punct .RBracket
              (list_tokens (head :: tail) ++ Token.punctuation .RBracket :: rest') = false := by
            rw [peek_is_punct, hfirst]
            exact hempty
          have hitem : ∀ value ∈ head :: tail, ∀ rest : List Token, True →
              parse_set_parameter_value syntaxes fuel (value.tokens ++ rest) =
                .ok (id value, rest) := by
            intro value hvalue rest _
            obtain ⟨ts', behind', hone⟩ := hitems value hvalue
            exact (ih hone).2 rest
          have hclosed : (Token.punctuation .RBracket :: rest').head? ≠ some .comma := by simp
          have hall := comma_list_written (fun _ => trivial) (List.cons_ne_nil head tail) hitem
            trivial hclosed
          rw [hnone, if_neg Bool.false_ne_true, list_tokens_eq, hall, List.map_id]
      rw [parse_set_parameter_value, bind_apply, look_apply, bind_ok, List.append_assoc,
        List.append_assoc, List.singleton_append, List.singleton_append, hcollection,
        peek_punct_self, Bool.and_true, if_pos rfl, bind_apply, expect_punct_same, bind_ok,
        bind_apply, hread, bind_ok, bind_apply, expect_punct_same]
      rfl
    | false =>
      rw [hlist, if_neg Bool.false_ne_true, bind_apply, optional_token_apply, bind_ok] at h
      cases ts with
      | nil => cases h
      | cons t ts =>
        have hplain : ∀ rest' : List Token,
            (syntaxes.collection_literals && peek_is_punct .LBracket (t :: rest')) = false :=
          fun _ => hlist
        cases hsign : sign_token t with
        | some sign =>
          have hbind : (t :: ts).head?.bind sign_token = some sign := hsign
          rw [hbind] at h
          obtain ⟨⟨number, mid⟩, hnumber, heq⟩ := bind_eq_ok.mp h
          cases heq
          obtain ⟨c, -, hc⟩ := token_eq_ok hnumber
          have ht := sign_token_eq hsign
          subst ht
          rw [SetParameterValue.tokens]
          refine ⟨⟨_, rfl, rfl⟩, ?_⟩
          intro rest'
          have hread : optional_token sign_token (.operator sign :: .number number :: rest') =
              .ok (some sign, .number number :: rest') := by
            simp [optional_token_apply, hsign]
          have htext : (some sign).toList.map Token.operator ++ [.number number] ++ rest' =
              .operator sign :: .number number :: rest' := rfl
          rw [htext, parse_set_parameter_value, bind_apply, look_apply, bind_ok, hplain,
            if_neg Bool.false_ne_true, bind_apply, hread]
          rfl
        | none =>
          have hbind : (t :: ts).head?.bind sign_token = none := hsign
          rw [hbind] at h
          obtain ⟨c, hsplit, hmeans⟩ := token_eq_ok h
          obtain ⟨rfl, -⟩ := List.cons.inj hsplit
          have htokens := set_parameter_token_tokens hmeans
          rw [htokens]
          refine ⟨⟨t, rfl, rfl⟩, ?_⟩
          intro rest'
          have hread : optional_token sign_token (t :: rest') = .ok (none, t :: rest') := by
            simp [optional_token_apply, hsign]
          rw [List.singleton_append, parse_set_parameter_value, bind_apply, look_apply, bind_ok,
            hplain, if_neg Bool.false_ne_true, bind_apply, hread]
          exact token_cons hmeans
theorem head_append {tokens rest' : List Token} {t : Token} (h : tokens.head? = some t) :
    (tokens ++ rest').head? = some t := by
  rw [List.head?_append, h]
  rfl

theorem generic_value_written {fuel : Nat} {value : SetParameterValue}
    (h : parse_generic_set_parameter_value syntaxes fuel ts = .ok (value, rest)) :
    (∃ t, ts.head? = some t ∧ value.tokens.head? = some t) ∧ ∀ rest',
      parse_generic_set_parameter_value syntaxes fuel (value.tokens ++ rest') =
        .ok (value, rest') := by
  rw [parse_generic_set_parameter_value, bind_apply, look_apply, bind_ok] at h
  cases hrefused : ts.head?.any (set_value_refused syntaxes) with
  | true =>
    rw [hrefused, if_pos rfl] at h
    cases h
  | false =>
    rw [hrefused, if_neg Bool.false_ne_true] at h
    obtain ⟨⟨t, hts, htokens⟩, hall⟩ := set_parameter_value_written h
    refine ⟨⟨t, hts, htokens⟩, ?_⟩
    intro rest'
    rw [hts] at hrefused
    rw [parse_generic_set_parameter_value, bind_apply, look_apply, bind_ok, head_append htokens,
      hrefused, if_neg Bool.false_ne_true]
    exact hall rest'

theorem peek_head {tokens : List Token} {t : Token} {word : String}
    (hts : ts.head? = some t) (htokens : tokens.head? = some t) (rest' : List Token) :
    peek_is_contextual_keyword word (tokens ++ rest') = peek_is_contextual_keyword word ts := by
  rw [peek_is_contextual_keyword, peek_is_contextual_keyword, head_append htokens, hts]

theorem set_value_written {fuel : Nat} {value : SetValue}
    (h : parse_set_value syntaxes fuel ts = .ok (value, rest)) {rest' : List Token}
    (hcomma : rest'.head? ≠ some .comma) :
    parse_set_value syntaxes fuel (value.tokens ++ rest') = .ok (value, rest') := by
  obtain ⟨⟨taken, mid⟩, heat, h⟩ := bind_eq_ok.mp h
  cases taken with
  | true =>
    cases h
    have hread : eat_contextual_keyword "default" (written "default" :: rest') =
        .ok (true, rest') := eat_written (by decide)
    rw [SetValue.tokens, List.singleton_append, parse_set_value, bind_apply, hread]
    rfl
  | false =>
    obtain ⟨hnot, rfl⟩ := eat_false heat
    obtain ⟨⟨values, behind⟩, hvalues, heq⟩ := bind_eq_ok.mp h
    cases heq
    obtain ⟨head, tail, mid, rfl, hhead, hitems⟩ := comma_separated_mem hvalues
    obtain ⟨⟨t, hts, htokens⟩, -⟩ := generic_value_written hhead
    have hfirst : (comma_list SetParameterValue.tokens (head :: tail)).head? = some t := by
      rw [comma_list, head_append htokens]
    have habsent : eat_contextual_keyword "default"
        (comma_list SetParameterValue.tokens (head :: tail) ++ rest') =
          .ok (false, comma_list SetParameterValue.tokens (head :: tail) ++ rest') := by
      apply eat_absent
      rw [peek_head hts hfirst, hnot]
    have hitem : ∀ value ∈ head :: tail, ∀ rest : List Token, True →
        parse_generic_set_parameter_value syntaxes fuel (value.tokens ++ rest) =
          .ok (id value, rest) := by
      intro value hvalue rest _
      obtain ⟨ts', behind', hone⟩ := hitems value hvalue
      exact (generic_value_written hone).2 rest
    have hall := comma_list_written (fun _ => trivial) (List.cons_ne_nil head tail) hitem trivial
      hcomma
    rw [List.map_id] at hall
    rw [SetValue.tokens, parse_set_value, bind_apply, habsent, bind_ok,
      if_neg Bool.false_ne_true, bind_apply, hall]
    rfl

theorem sentinel_words : ∀ entry ∈ sentinels,
    entry.1 ∈ words ∧ entry.2.tokens = [written entry.1] := by
  intro entry hentry
  rw [sentinels, List.mem_cons, List.mem_cons, List.mem_singleton] at hentry
  obtain rfl | rfl | rfl := hentry
  · exact ⟨by decide, rfl⟩
  · exact ⟨by decide, rfl⟩
  · exact ⟨by decide, rfl⟩

/-- A word of a table is read again where it is written. -/
theorem optional_written {β : Type} {table : List (String × β)} {b : β} {word : String}
    (hwritten : spelled (written word) = some word.toList) {t : Token}
    (ht : spelled t = some word.toList) (hvalue : table_value table t = some b) :
    optional_token (table_value table) (written word :: rest) = .ok (some b, rest) := by
  have hsame : table_value table (written word) = some b :=
    (table_value_spelled (hwritten.trans ht.symm)).trans hvalue
  simp [optional_token_apply, hsame]

theorem optional_head {β : Type} {means : Token → Option β} {tokens : List Token} {t : Token}
    (htokens : tokens.head? = some t) (hmeans : means t = none) (rest' : List Token) :
    optional_token means (tokens ++ rest') = .ok (none, tokens ++ rest') := by
  rw [optional_token_apply, head_append htokens, Option.bind_some, hmeans]
  rfl

theorem special_value_written {sentinel_list : List String} {fuel : Nat} {value : SpecialSetValue}
    (h : parse_special_set_value syntaxes sentinel_list fuel ts = .ok (value, rest))
    (rest' : List Token) :
    parse_special_set_value syntaxes sentinel_list fuel (value.tokens ++ rest') =
      .ok (value, rest') := by
  rw [parse_special_set_value, bind_apply, optional_token_apply, bind_ok] at h
  cases ts with
  | nil =>
    obtain ⟨⟨found, mid⟩, hvalue, -⟩ := bind_eq_ok.mp h
    obtain ⟨⟨t, hts, -⟩, -⟩ := set_parameter_value_written hvalue
    cases hts
  | cons t ts =>
    cases hsentinel : table_value (sentinels.filter fun entry =>
        sentinel_list.contains entry.1) t with
    | some sentinel =>
      have hbind : (t :: ts).head?.bind (table_value (sentinels.filter fun entry =>
          sentinel_list.contains entry.1)) = some sentinel := hsentinel
      rw [hbind] at h
      cases h
      obtain ⟨word, hmem, hspelled⟩ := table_value_eq_some hsentinel
      obtain ⟨hword, htokens⟩ := sentinel_words _ (List.mem_filter.mp hmem).1
      rw [htokens, List.singleton_append, parse_special_set_value, bind_apply,
        optional_written (spelled_written hword) hspelled hsentinel]
      rfl
    | none =>
      have hbind : (t :: ts).head?.bind (table_value (sentinels.filter fun entry =>
          sentinel_list.contains entry.1)) = none := hsentinel
      rw [hbind] at h
      obtain ⟨⟨found, mid⟩, hvalue, heq⟩ := bind_eq_ok.mp h
      cases heq
      obtain ⟨⟨c, hts, htokens⟩, hall⟩ := set_parameter_value_written hvalue
      cases hts
      rw [SpecialSetValue.tokens, parse_special_set_value, bind_apply,
        optional_head htokens hsentinel, bind_ok]
      dsimp only
      rw [bind_apply, hall rest']
      rfl

/-! ## Names -/

theorem object_name_written {name : ObjectName}
    (h : parse_object_name features syntaxes.reserved_as_label ts = .ok (name, rest)) :
    (∃ first parts, name = first :: parts ∧ ts.head? = some first.token ∧
      column_part features first.token = some first) ∧
    ts = object_name_tokens name ++ rest ∧
    ∀ rest' : List Token, rest'.head? ≠ some (.punctuation .Dot) →
      parse_object_name features syntaxes.reserved_as_label (object_name_tokens name ++ rest') =
        .ok (name, rest') := by
  obtain ⟨hsplit, ⟨first, parts, rfl, hfirst⟩, hall⟩ :=
    dotted_eq_ok (fun _ _ => column_part_token) (fun _ _ => label_part_token) h
  refine ⟨⟨first, parts, rfl, ?_, hfirst⟩, hsplit, hall⟩
  rw [hsplit]
  rfl

/-- No word stands behind the first part of a name. -/
theorem object_name_second {name : ObjectName} {word : String} (hne : name ≠ [])
    (hrest : peek_is_contextual_keyword word rest = false) :
    peek_nth_is_contextual_keyword 1 word (object_name_tokens name ++ rest) = false := by
  cases name with
  | nil => exact absurd rfl hne
  | cons first parts =>
    cases parts with
    | nil =>
      cases rest with
      | nil => rfl
      | cons t rest => exact hrest
    | cons part parts => rfl

theorem object_names_written {names : List ObjectName}
    (h : parse_comma_separated (parse_object_name features syntaxes.reserved_as_label) ts =
      .ok (names, rest)) :
    (∃ t, ts.head? = some t ∧ (comma_list object_name_tokens names).head? = some t) ∧
    ∀ rest' : List Token, rest'.head? ≠ some (.punctuation .Dot) → rest'.head? ≠ some .comma →
      parse_comma_separated (parse_object_name features syntaxes.reserved_as_label)
        (comma_list object_name_tokens names ++ rest') = .ok (names, rest') := by
  obtain ⟨head, tail, mid, rfl, hhead, hitems⟩ := comma_separated_mem h
  obtain ⟨⟨first, parts, rfl, hts, -⟩, -, -⟩ := object_name_written hhead
  refine ⟨⟨first.token, hts, rfl⟩, ?_⟩
  intro rest' hdot hcomma
  have hitem : ∀ name ∈ (first :: parts) :: tail, ∀ rest : List Token,
      rest.head? ≠ some (.punctuation .Dot) →
      parse_object_name features syntaxes.reserved_as_label (object_name_tokens name ++ rest) =
        .ok (id name, rest) := by
    intro name hname rest hrest
    obtain ⟨ts', behind', hone⟩ := hitems name hname
    exact (object_name_written hone).2.2 rest hrest
  have hall := comma_list_written (fun _ => by simp) (List.cons_ne_nil _ tail) hitem hdot hcomma
  rw [List.map_id] at hall
  exact hall
/-! ## Ends -/

/-- What stands behind a statement: nothing, or a semicolon. -/
def Ended (rest : List Token) : Prop := ∀ t, rest.head? = some t → t = .punctuation .Semicolon

theorem ended_ne (hend : Ended rest) {t : Token} (hne : t ≠ .punctuation .Semicolon) :
    rest.head? ≠ some t := fun h => hne (hend t h)

theorem ended_peek (hend : Ended rest) (word : String) :
    peek_is_contextual_keyword word rest = false := by
  cases hhead : rest.head? with
  | none =>
    rw [peek_is_contextual_keyword, hhead]
    rfl
  | some t =>
    rw [peek_is_contextual_keyword, hhead, hend t hhead]
    rfl

theorem ended_eat (hend : Ended rest) (word : String) :
    eat_contextual_keyword word rest = .ok (false, rest) := eat_absent (ended_peek hend word)

theorem ended_gated (hend : Ended rest) (gate : Bool) (word : String) :
    eat_gated gate word rest = .ok (false, rest) := by
  cases gate with
  | false => rfl
  | true => exact ended_eat hend word

/-! ## Transaction modes -/

theorem gated_written {gate : Bool} {word : String} (hgate : gate = true) (h : word ∈ words) :
    eat_gated gate word (written word :: ts) = .ok (true, ts) := by
  rw [eat_gated, hgate, if_pos rfl]
  exact eat_written h

theorem gated_other {word other : String} (gate : Bool) (h : word ∈ words) (hne : word ≠ other) :
    eat_gated gate other (written word :: ts) = .ok (false, written word :: ts) := by
  cases gate with
  | false => rfl
  | true => exact eat_other h hne

theorem gated_true {gate : Bool} {word : String} (h : eat_gated gate word ts = .ok (true, rest)) :
    gate = true := by
  cases gate with
  | false => cases h
  | true => rfl

/-- The gate that a mode stands behind. -/
def TransactionMode.gate (syntaxes : SessionSyntax) : TransactionMode → Bool
  | .IsolationLevel _ => syntaxes.transaction_isolation_mode
  | .AccessMode _ => syntaxes.transaction_access_mode
  | .Deferrable _ => syntaxes.transaction_deferrable_mode

theorem transaction_mode_gate {mode : TransactionMode}
    (h : parse_optional_transaction_mode syntaxes ts = .ok (some mode, rest)) :
    mode.gate syntaxes = true := by
  obtain ⟨⟨isolation, mid⟩, hisolation, h⟩ := bind_eq_ok.mp h
  cases isolation with
  | true =>
    obtain ⟨⟨⟨⟩, _⟩, -, h⟩ := bind_eq_ok.mp h
    obtain ⟨⟨level, _⟩, -, heq⟩ := bind_eq_ok.mp h
    cases heq
    exact gated_true hisolation
  | false =>
    obtain ⟨⟨access, mid'⟩, haccess, h⟩ := bind_eq_ok.mp h
    cases access with
    | true =>
      obtain ⟨⟨only, _⟩, -, h⟩ := bind_eq_ok.mp h
      cases only with
      | true =>
        cases h
        exact gated_true haccess
      | false =>
        obtain ⟨⟨write, _⟩, -, h⟩ := bind_eq_ok.mp h
        cases write with
        | false => cases h
        | true =>
          cases h
          exact gated_true haccess
    | false =>
      obtain ⟨⟨deferrable, _⟩, hdeferrable, h⟩ := bind_eq_ok.mp h
      cases deferrable with
      | true =>
        cases h
        exact gated_true hdeferrable
      | false =>
        obtain ⟨⟨negated, _⟩, hnot, h⟩ := bind_eq_ok.mp h
        cases negated with
        | false => cases h
        | true =>
          obtain ⟨⟨⟨⟩, _⟩, -, heq⟩ := bind_eq_ok.mp h
          cases heq
          exact gated_true hnot

theorem isolation_level_written (level : IsolationLevel) :
    parse_isolation_level (level.words.map written ++ rest) = .ok (level, rest) := by
  cases level with
  | ReadUncommitted => rfl
  | ReadCommitted => rfl
  | RepeatableRead => rfl
  | Serializable => rfl

theorem transaction_mode_written {mode : TransactionMode} (hgate : mode.gate syntaxes = true) :
    parse_optional_transaction_mode syntaxes (mode.tokens ++ rest) = .ok (some mode, rest) := by
  cases mode with
  | IsolationLevel level =>
    have hone : eat_gated syntaxes.transaction_isolation_mode "isolation"
        (written "isolation" :: written "level" :: (level.words.map written ++ rest)) =
          .ok (true, written "level" :: (level.words.map written ++ rest)) :=
      gated_written hgate (by decide)
    have htwo : expect_contextual_keyword "level"
        (written "level" :: (level.words.map written ++ rest)) =
          .ok ((), level.words.map written ++ rest) := expect_written (by decide)
    have htext : (TransactionMode.IsolationLevel level).tokens ++ rest =
        written "isolation" :: written "level" :: (level.words.map written ++ rest) := rfl
    rw [htext, parse_optional_transaction_mode, bind_apply, hone, bind_ok, if_pos rfl, bind_apply,
      htwo, bind_ok, bind_apply, isolation_level_written]
    rfl
  | AccessMode access =>
    have hone : ∀ ts, eat_gated syntaxes.transaction_isolation_mode "isolation"
        (written "read" :: ts) = .ok (false, written "read" :: ts) :=
      fun _ => gated_other _ (by decide) (by decide)
    have htwo : ∀ ts, eat_gated syntaxes.transaction_access_mode "read" (written "read" :: ts) =
        .ok (true, ts) := fun _ => gated_written hgate (by decide)
    have htext : (TransactionMode.AccessMode access).tokens ++ rest = written "read" ::
        ((TransactionMode.AccessMode access).words.tail.map written ++ rest) := by
      cases access <;> rfl
    rw [htext, parse_optional_transaction_mode, bind_apply, hone, bind_ok,
      if_neg Bool.false_ne_true, bind_apply, htwo, bind_ok, if_pos rfl]
    cases access with
    | ReadOnly => rfl
    | ReadWrite => rfl
  | Deferrable deferrable =>
    have hgated : ∀ (gate : Bool) (other word : String) (ts : List Token), word ∈ words →
        word ≠ other → eat_gated gate other (written word :: ts) =
          .ok (false, written word :: ts) := fun gate _ _ _ h hne => gated_other gate h hne
    cases deferrable with
    | true =>
      have hone : eat_gated syntaxes.transaction_deferrable_mode "deferrable"
          (written "deferrable" :: rest) = .ok (true, rest) := gated_written hgate (by decide)
      have htext : (TransactionMode.Deferrable true).tokens ++ rest =
          written "deferrable" :: rest := rfl
      rw [htext, parse_optional_transaction_mode, bind_apply,
        hgated _ "isolation" "deferrable" _ (by decide) (by decide), bind_ok,
        if_neg Bool.false_ne_true, bind_apply,
        hgated _ "read" "deferrable" _ (by decide) (by decide), bind_ok,
        if_neg Bool.false_ne_true, bind_apply, hone]
      rfl
    | false =>
      have hone : eat_gated syntaxes.transaction_deferrable_mode "not"
          (written "not" :: written "deferrable" :: rest) = .ok (true, written "deferrable" :: rest) :=
        gated_written hgate (by decide)
      have htext : (TransactionMode.Deferrable false).tokens ++ rest =
          written "not" :: written "deferrable" :: rest := rfl
      rw [htext, parse_optional_transaction_mode, bind_apply,
        hgated _ "isolation" "not" _ (by decide) (by decide), bind_ok,
        if_neg Bool.false_ne_true, bind_apply, hgated _ "read" "not" _ (by decide) (by decide),
        bind_ok, if_neg Bool.false_ne_true, bind_apply,
        hgated _ "deferrable" "not" _ (by decide) (by decide), bind_ok,
        if_neg Bool.false_ne_true, bind_apply, hone, bind_ok, if_pos rfl, bind_apply,
        expect_written (by decide)]
      rfl

theorem transaction_mode_ended (hend : Ended rest) :
    parse_optional_transaction_mode syntaxes rest = .ok (none, rest) := by
  rw [parse_optional_transaction_mode, bind_apply, ended_gated hend, bind_ok,
    if_neg Bool.false_ne_true, bind_apply, ended_gated hend, bind_ok, if_neg Bool.false_ne_true,
    bind_apply, ended_gated hend, bind_ok, if_neg Bool.false_ne_true, bind_apply,
    ended_gated hend]
  rfl

theorem eat_punct_comma (ts : List Token) : eat_punct .Comma (.comma :: ts) = .ok (true, ts) := rfl

theorem eat_punct_absent {punct : Punctuation} (h : ts.head? ≠ some (.punctuation punct)) :
    eat_punct punct ts = .ok (false, ts) := by
  apply accept_apply_false
  cases ts with
  | nil => rfl
  | cons t ts =>
    apply beq_false_of_ne
    rintro rfl
    exact h rfl

/-- A mode that may stand behind `modes` is read where it is written. -/
theorem modes_loop_cons {modes : List TransactionMode} {mode : TransactionMode} {required : Bool}
    {n : Nat} (hgate : mode.gate syntaxes = true)
    (hnew : (syntaxes.transaction_modes_reject_duplicates &&
      modes.any fun existing => same_transaction_mode_kind existing mode) = false) :
    transaction_modes_loop syntaxes modes required (n + 1) (mode.tokens ++ rest) =
      (if !syntaxes.transaction_multiple_modes then return modes ++ [mode]
      else do
        let comma ← eat_punct .Comma
        if syntaxes.transaction_modes_require_commas && !comma then return modes ++ [mode]
        else transaction_modes_loop syntaxes (modes ++ [mode]) comma n) rest := by
  rw [transaction_modes_loop, bind_apply, transaction_mode_written hgate, bind_ok]
  dsimp only
  rw [hnew, if_neg Bool.false_ne_true]

theorem modes_loop_ended {modes : List TransactionMode} {n : Nat} (hend : Ended rest) :
    transaction_modes_loop syntaxes modes false (n + 1) rest = .ok (modes, rest) := by
  rw [transaction_modes_loop, bind_apply, transaction_mode_ended hend]
  rfl

/-- The modes of a list are read again, with a comma between any two. -/
theorem modes_loop_written {n : Nat} {modes all : List TransactionMode} {mode_required : Bool}
    (h : transaction_modes_loop syntaxes modes mode_required n ts = .ok (all, rest)) :
    ∃ behind, all = modes ++ behind ∧ ∀ (m : Nat) (required : Bool) (rest' : List Token),
      Ended rest' → behind.length < m → (behind = [] → required = false) →
      transaction_modes_loop syntaxes modes required m
        (comma_list TransactionMode.tokens behind ++ rest') = .ok (all, rest') := by
  have hstop : ∀ {modes : List TransactionMode} (m : Nat) (required : Bool) (rest' : List Token),
      Ended rest' → ([] : List TransactionMode).length < m → (([] : List TransactionMode) = [] →
        required = false) → transaction_modes_loop syntaxes modes required m
          (comma_list TransactionMode.tokens [] ++ rest') = .ok (modes, rest') := by
    intro modes m required rest' hend hm hrequired
    obtain ⟨m, rfl⟩ := Nat.exists_eq_succ_of_ne_zero (Nat.ne_zero_of_lt hm)
    rw [hrequired rfl, comma_list, List.nil_append]
    exact modes_loop_ended hend
  induction n generalizing ts modes mode_required with
  | zero =>
    cases h
    exact ⟨[], (List.append_nil _).symm, hstop⟩
  | succ n ih =>
    obtain ⟨⟨found, mid⟩, hmode, h⟩ := bind_eq_ok.mp h
    cases found with
    | none =>
      cases mode_required with
      | true => cases h
      | false =>
        cases h
        exact ⟨[], (List.append_nil _).symm, hstop⟩
    | some mode =>
      have hgate := transaction_mode_gate hmode
      cases hnew : (syntaxes.transaction_modes_reject_duplicates &&
          modes.any fun existing => same_transaction_mode_kind existing mode) with
      | true =>
        simp only [hnew] at h
        cases h
      | false =>
        dsimp only at h
        rw [hnew, if_neg Bool.false_ne_true] at h
        cases hmultiple : syntaxes.transaction_multiple_modes with
        | false =>
          simp only [hmultiple] at h
          cases h
          refine ⟨[mode], rfl, ?_⟩
          intro m required rest' _ hm _
          obtain ⟨m, rfl⟩ := Nat.exists_eq_succ_of_ne_zero (Nat.ne_zero_of_lt hm)
          rw [comma_list, List.flatMap_nil, List.append_nil, modes_loop_cons hgate hnew, hmultiple]
          rfl
        | true =>
          simp only [hmultiple] at h
          obtain ⟨⟨comma, behind⟩, -, h⟩ := bind_eq_ok.mp h
          have hcomma : ∀ ts : List Token, ts.head? ≠ some .comma →
              eat_punct .Comma ts = .ok (false, ts) := fun _ hne => eat_punct_absent hne
          cases hrequire : (syntaxes.transaction_modes_require_commas && !comma) with
          | true =>
            simp only [hrequire] at h
            cases h
            refine ⟨[mode], rfl, ?_⟩
            intro m required rest' hend hm _
            obtain ⟨m, rfl⟩ := Nat.exists_eq_succ_of_ne_zero (Nat.ne_zero_of_lt hm)
            have hrequire' := (Bool.and_eq_true_iff.mp hrequire).1
            rw [comma_list, List.flatMap_nil, List.append_nil, modes_loop_cons hgate hnew,
              hmultiple, Bool.not_true, if_neg Bool.false_ne_true, bind_apply,
              hcomma rest' (ended_ne hend (by decide)), bind_ok, hrequire']
            rfl
          | false =>
            simp only [hrequire] at h
            obtain ⟨modes', rfl, hall⟩ := ih h
            refine ⟨mode :: modes', by rw [List.append_assoc]; rfl, ?_⟩
            intro m required rest' hend hm _
            obtain ⟨m, rfl⟩ := Nat.exists_eq_succ_of_ne_zero (Nat.ne_zero_of_lt hm)
            rw [List.length_cons] at hm
            have hlt : modes'.length < m := by omega
            rw [comma_list, List.append_assoc, modes_loop_cons hgate hnew, hmultiple,
              Bool.not_true, if_neg Bool.false_ne_true, bind_apply]
            cases modes' with
            | nil =>
              rw [List.flatMap_nil, List.nil_append, hcomma rest' (ended_ne hend (by decide)),
                bind_ok]
              cases hcommas : syntaxes.transaction_modes_require_commas with
              | true =>
                rw [List.append_nil]
                rfl
              | false => exact hall m false rest' hend hlt fun _ => rfl
            | cons next modes' =>
              have htext : ((next :: modes').flatMap fun mode => .comma :: mode.tokens) ++ rest' =
                  .comma :: (comma_list TransactionMode.tokens (next :: modes') ++ rest') := by
                simp [comma_list]
              rw [htext, eat_punct_comma, bind_ok]
              dsimp only
              rw [Bool.not_true, Bool.and_false, if_neg Bool.false_ne_true]
              exact hall m true rest' hend hlt fun hnil => absurd hnil (List.cons_ne_nil _ _)

theorem transaction_modes_written {modes : List TransactionMode}
    (h : parse_transaction_modes syntaxes ts = .ok (modes, rest)) {rest' : List Token}
    (hend : Ended rest') :
    parse_transaction_modes syntaxes (comma_list TransactionMode.tokens modes ++ rest') =
      .ok (modes, rest') := by
  rw [parse_transaction_modes, bind_apply, look_apply, bind_ok] at h ⊢
  obtain ⟨_, rfl, hall⟩ := modes_loop_written h
  have hlength : modes.length ≤ (comma_list TransactionMode.tokens modes).length := by
    cases modes with
    | nil => exact Nat.le_refl 0
    | cons mode modes =>
      have htokens : ∀ mode ∈ modes, (Token.comma :: mode.tokens) ≠ [] :=
        fun _ _ => List.cons_ne_nil _ _
      have hitems := length_le_flatMap htokens
      have hmode : 0 < mode.tokens.length := by
        cases mode with
        | IsolationLevel level | AccessMode level | Deferrable level =>
          cases level <;> exact Nat.succ_pos _
      rw [comma_list, List.length_append, List.length_cons]
      omega
  apply hall _ false rest' hend _ fun _ => rfl
  rw [List.length_append]
  omega

/-! ## Threads -/

theorem thread_id_eq {id : List Char} (h : parse_thread_id syntaxes ts = .ok (id, rest)) :
    unsigned_integer syntaxes (.number id) = some id := by
  obtain ⟨t, -, hmeans⟩ := token_eq_ok h
  rw [unsigned_integer.eq_def] at hmeans
  split at hmeans
  · rename_i text
    split at hmeans
    · rename_i hkind
      cases hmeans
      exact if_pos hkind
    · cases hmeans
  · cases hmeans

theorem thread_turn_written {id : List Char} (h : unsigned_integer syntaxes (.number id) = some id)
    (rest' : List Token) :
    thread_id_turn syntaxes (.comma :: .number id :: rest') = .ok (some id, rest') := by
  have hread : parse_thread_id syntaxes (.number id :: rest') = .ok (id, rest') := token_cons h
  rw [thread_id_turn, bind_apply, eat_punct_comma, bind_ok, bind_apply, look_apply, bind_ok]
  dsimp only
  rw [Bool.not_true, Bool.false_and, if_neg Bool.false_ne_true, bind_apply, hread]
  rfl

theorem thread_turn_ended (hend : Ended rest) :
    thread_id_turn syntaxes rest = .ok (none, rest) := by
  have hcomma : eat_punct .Comma rest = .ok (false, rest) :=
    eat_punct_absent (ended_ne hend (by decide))
  have hnumber : (rest.head?.any fun t => (number_token t).isSome) = false := by
    cases hhead : rest.head? with
    | none => rfl
    | some t =>
      rw [hend t hhead]
      rfl
  rw [thread_id_turn, bind_apply, hcomma, bind_ok, bind_apply, look_apply, bind_ok, hnumber]
  rfl

theorem thread_ids_written {ids : List (List Char)}
    (h : parse_thread_ids syntaxes ts = .ok (ids, rest)) {rest' : List Token}
    (hend : Ended rest') :
    parse_thread_ids syntaxes (comma_list (fun id => [.number id]) ids ++ rest') =
      .ok (ids, rest') := by
  obtain ⟨⟨first, mid⟩, hfirst, h⟩ := bind_eq_ok.mp h
  obtain ⟨⟨others, behind⟩, hothers, heq⟩ := bind_eq_ok.mp h
  cases heq
  have hid : ∀ id ∈ others, unsigned_integer syntaxes (.number id) = some id := by
    intro id hmem
    obtain ⟨ts, rest, hturn⟩ := many_mem hothers id hmem
    obtain ⟨⟨comma, mid⟩, -, hturn⟩ := bind_eq_ok.mp hturn
    dsimp only at hturn
    rw [bind_apply, look_apply, bind_ok] at hturn
    split at hturn
    · cases hturn
    · obtain ⟨⟨_, _⟩, hone, heq⟩ := bind_eq_ok.mp hturn
      cases heq
      exact thread_id_eq hone
  have hread : parse_thread_id syntaxes (.number first :: ((others.flatMap fun id =>
      [.comma, .number id]) ++ rest')) = .ok (first, (others.flatMap fun id =>
        [.comma, .number id]) ++ rest') := token_cons (thread_id_eq hfirst)
  have hturn : ∀ one ∈ others, ∀ rest : List Token, True →
      thread_id_turn syntaxes ([.comma, .number one] ++ rest) = .ok (some (id one), rest) :=
    fun one hmem rest _ => thread_turn_written (hid one hmem) rest
  have hmany := many_written (fun _ _ => List.cons_ne_nil _ _) (fun _ _ _ => trivial) hturn trivial
    (thread_turn_ended hend)
  rw [List.map_id] at hmany
  rw [comma_list, List.singleton_append, List.cons_append, parse_thread_ids, bind_apply, hread,
    bind_ok, bind_apply, hmany]
  rfl

/-! ## Settings -/

theorem ident_written {name : Ident} (h : parse_ident features ts = .ok (name, rest))
    (rest' : List Token) :
    parse_ident features (expr.ident_token name :: rest') = .ok (name, rest') := by
  obtain ⟨t, -, hmeans⟩ := token_eq_ok h
  have htoken := expr.column_name_token hmeans
  subst htoken
  exact token_cons hmeans

theorem table_written {β : Type} {table : List (String × β)} {b : β} {error : String}
    {word_of : β → String} (htable : ∀ entry ∈ table, entry.1 = word_of entry.2 ∧ entry.1 ∈ words)
    (h : token (table_value table) error ts = .ok (b, rest)) (rest' : List Token) :
    token (table_value table) error (written (word_of b) :: rest') = .ok (b, rest') := by
  obtain ⟨t, -, hmeans⟩ := token_eq_ok h
  obtain ⟨word, hmem, hspelled⟩ := table_value_eq_some hmeans
  obtain ⟨hword, hwords⟩ := htable _ hmem
  have hsame : table_value table (written (word_of b)) = some b := by
    rw [← hword, ← hmeans]
    exact table_value_spelled ((spelled_written hwords).trans hspelled.symm)
  exact token_cons hsame

theorem check_time_written {check_time : ConstraintCheckTime}
    (h : parse_constraint_check_time ts = .ok (check_time, rest)) (rest' : List Token) :
    parse_constraint_check_time (written check_time.word :: rest') = .ok (check_time, rest') := by
  have htable : ∀ entry ∈ check_times, entry.1 = entry.2.word ∧ entry.1 ∈ words := by
    simp [check_times, ConstraintCheckTime.word, words]
  exact table_written htable h rest'

/-- A word that is read in front of a value is written in front of it. -/
theorem eat_front {word : String} {tokens : List Token} {t : Token}
    (h : eat_contextual_keyword word ts = .ok (false, rest)) (hts : ts.head? = some t)
    (htokens : tokens.head? = some t) (rest' : List Token) :
    eat_contextual_keyword word (tokens ++ rest') = .ok (false, tokens ++ rest') := by
  apply eat_absent
  rw [peek_head hts htokens]
  exact (eat_false h).1

theorem constraints_target_written {constraints : ConstraintsTarget}
    (h : parse_constraints_target features syntaxes ts = .ok (constraints, rest))
    {rest' : List Token} (hdot : rest'.head? ≠ some (.punctuation .Dot))
    (hcomma : rest'.head? ≠ some .comma) :
    parse_constraints_target features syntaxes (constraints.tokens ++ rest') =
      .ok (constraints, rest') := by
  obtain ⟨⟨taken, mid⟩, heat, h⟩ := bind_eq_ok.mp h
  cases taken with
  | true =>
    cases h
    have hread : eat_contextual_keyword "all" (written "all" :: rest') = .ok (true, rest') :=
      eat_written (by decide)
    rw [ConstraintsTarget.tokens, List.singleton_append, parse_constraints_target, bind_apply,
      hread]
    rfl
  | false =>
    obtain ⟨-, rfl⟩ := eat_false heat
    obtain ⟨⟨names, behind⟩, hnames, heq⟩ := bind_eq_ok.mp h
    cases heq
    obtain ⟨⟨t, hts, htokens⟩, hall⟩ := object_names_written hnames
    rw [ConstraintsTarget.tokens, parse_constraints_target, bind_apply,
      eat_front heat hts htokens, bind_ok, if_neg Bool.false_ne_true, bind_apply,
      hall rest' hdot hcomma]
    rfl

theorem config_parameter_written {target : ConfigParameter}
    (h : parse_config_parameter features syntaxes ts = .ok (target, rest)) {rest' : List Token}
    (hdot : rest'.head? ≠ some (.punctuation .Dot)) :
    parse_config_parameter features syntaxes (target.tokens ++ rest') = .ok (target, rest') := by
  obtain ⟨⟨taken, mid⟩, heat, h⟩ := bind_eq_ok.mp h
  cases taken with
  | true =>
    cases h
    have hread : eat_contextual_keyword "all" (written "all" :: rest') = .ok (true, rest') :=
      eat_written (by decide)
    rw [ConfigParameter.tokens, List.singleton_append, parse_config_parameter, bind_apply, hread]
    rfl
  | false =>
    obtain ⟨-, rfl⟩ := eat_false heat
    obtain ⟨⟨name, behind⟩, hname, heq⟩ := bind_eq_ok.mp h
    cases heq
    obtain ⟨⟨first, parts, rfl, hts, -⟩, -, hall⟩ := object_name_written hname
    have htokens : (object_name_tokens (first :: parts)).head? = some first.token := rfl
    rw [ConfigParameter.tokens, parse_config_parameter, bind_apply, eat_front heat hts htokens,
      bind_ok, if_neg Bool.false_ne_true, bind_apply, hall rest' hdot]
    rfl

theorem names_value_written {fuel : Nat} {value : SetNamesValue}
    (h : parse_set_names_value features syntaxes fuel ts = .ok (value, rest)) {rest' : List Token}
    (hend : Ended rest') :
    parse_set_names_value features syntaxes fuel (value.tokens ++ rest') = .ok (value, rest') := by
  obtain ⟨⟨taken, mid⟩, heat, h⟩ := bind_eq_ok.mp h
  cases taken with
  | true =>
    cases h
    have hread : eat_contextual_keyword "default" (written "default" :: rest') =
        .ok (true, rest') := eat_written (by decide)
    rw [SetNamesValue.tokens, List.singleton_append, parse_set_names_value, bind_apply, hread]
    rfl
  | false =>
    obtain ⟨-, rfl⟩ := eat_false heat
    obtain ⟨⟨charset, mid⟩, hcharset, h⟩ := bind_eq_ok.mp h
    obtain ⟨⟨collated, behind⟩, -, h⟩ := bind_eq_ok.mp h
    obtain ⟨⟨t, hts, htokens⟩, hall⟩ := set_parameter_value_written hcharset
    cases collated with
    | true =>
      obtain ⟨⟨collation, last⟩, hcollation, heq⟩ := bind_eq_ok.mp h
      cases heq
      have hcollate : ∀ ts, eat_contextual_keyword "collate" (written "collate" :: ts) =
          .ok (true, ts) := fun _ => eat_written (by decide)
      have htext : (SetNamesValue.Charset charset (some collation)).tokens ++ rest' =
          charset.tokens ++ (written "collate" :: expr.ident_token collation :: rest') :=
        List.append_assoc _ _ _
      rw [htext, parse_set_names_value, bind_apply, eat_front heat hts htokens, bind_ok,
        if_neg Bool.false_ne_true, bind_apply, hall, bind_ok, bind_apply, hcollate, bind_ok,
        if_pos rfl, bind_apply, ident_written hcollation]
      rfl
    | false =>
      cases h
      have htext : (SetNamesValue.Charset charset none).tokens = charset.tokens :=
        List.append_nil _
      rw [htext, parse_set_names_value, bind_apply, eat_front heat hts htokens, bind_ok,
        if_neg Bool.false_ne_true, bind_apply, hall, bind_ok, bind_apply, ended_eat hend]
      rfl

theorem character_set_written {fuel : Nat} {keyword : CharacterSetKeyword}
    {statement : SessionStatement E}
    (h : parse_set_character_set syntaxes fuel keyword ts = .ok (statement, rest)) :
    ∃ value, statement = .SetCharacterSet keyword value ∧ ∀ rest',
      parse_set_character_set syntaxes fuel keyword (value.tokens ++ rest') =
        .ok (statement, rest') := by
  obtain ⟨⟨taken, mid⟩, heat, h⟩ := bind_eq_ok.mp h
  cases taken with
  | true =>
    cases h
    refine ⟨.Default, rfl, ?_⟩
    intro rest'
    have hread : eat_contextual_keyword "default" (written "default" :: rest') =
        .ok (true, rest') := eat_written (by decide)
    rw [SetCharacterSetValue.tokens, List.singleton_append, parse_set_character_set, bind_apply,
      hread]
    rfl
  | false =>
    obtain ⟨-, rfl⟩ := eat_false heat
    obtain ⟨⟨charset, behind⟩, hcharset, heq⟩ := bind_eq_ok.mp h
    cases heq
    obtain ⟨⟨t, hts, htokens⟩, hall⟩ := set_parameter_value_written hcharset
    refine ⟨.Charset charset, rfl, ?_⟩
    intro rest'
    rw [SetCharacterSetValue.tokens, parse_set_character_set, bind_apply,
      eat_front heat hts htokens, bind_ok, if_neg Bool.false_ne_true, bind_apply, hall]
    rfl

end squonk.parser.clause.session
