import Squonk.Parser.RowPattern.Grouping

/-!
# Row patterns are read back

In front of what ends a pattern, the parser reads the tokens of the grammar into the tree that the
grammar gives them.
-/

open squonk.ast squonk.dialect squonk.tokenizer

namespace squonk.parser.row_pattern

/-! ## What stands next to each other -/

/-- Whether a quantifier is ahead. -/
def quantifies (tokens : List Token) : Bool :=
  match tokens with
  | .operator .Star :: _ | .operator .Plus :: _ => true
  | .punctuation .LBrace :: .operator .Minus :: _ => false
  | .punctuation .LBrace :: _ => true
  | _ => false

/-- Tokens that go on with a sequence: they neither end it nor hold a quantifier. -/
structure Opens (tokens : List Token) : Prop where
  ends : ends_sequence tokens = false
  quantifies : quantifies tokens = false

/-- What is behind a whole pattern. -/
structure Closes (tokens : List Token) : Prop where
  ends : ends_sequence tokens = true
  pipe : tokens.head? ≠ some (.operator .Pipe)

theorem not_quantifies_of_ends {tokens : List Token} (h : ends_sequence tokens = true) :
    quantifies tokens = false := by
  unfold ends_sequence at h
  split at h
  · rfl
  · rfl
  · rfl
  · rfl
  · rfl
  · cases h

theorem opens_of_permute {t : Token} (h : is_permute t = true) (rest : List Token) :
    Opens (t :: rest) := by
  cases t with
  | word text => exact ⟨rfl, rfl⟩
  | _ => cases h

section
variable {features : FeatureSet}

theorem opens_of_name {t : Token} {symbol : Ident}
    (h : expr.column_name features t = some symbol) (rest : List Token) : Opens (t :: rest) := by
  cases t with
  | word text => exact ⟨rfl, rfl⟩
  | quoted_ident text => exact ⟨rfl, rfl⟩
  | keyword keyword => exact ⟨rfl, rfl⟩
  | _ => cases h

/-- Every part starts with tokens that go on with a sequence. -/
theorem Reads.opens {n : Nat} {rank : Rank} {ts : List Token} {ps : List MatchRecognizePattern}
    (h : Reads features n rank ts ps) (rest : List Token) : Opens (ts ++ rest) := by
  induction h generalizing rest with
  | symbol h _ => exact opens_of_name h rest
  | start => exact ⟨rfl, rfl⟩
  | group _ _ => exact ⟨rfl, rfl⟩
  | exclude _ _ => exact ⟨rfl, rfl⟩
  | permute ht _ _ => exact opens_of_permute ht _
  | bare _ ih | last_factor _ ih | single _ ih | last_sequence _ ih | unbranched _ ih
  | last_member _ ih => exact ih rest
  | repetition _ _ ih =>
    rw [List.append_assoc]
    exact ih _
  | factor _ _ ih _ | concat _ _ ih _ | sequence _ _ ih _ | alternation _ _ ih _
  | member _ _ ih _ =>
    rw [List.append_assoc]
    exact ih _

theorem Reads.length_pos {n : Nat} {rank : Rank} {ts : List Token}
    {ps : List MatchRecognizePattern} (h : Reads features n rank ts ps) : 0 < ts.length := by
  apply List.length_pos_iff.mpr
  rintro rfl
  have hends := (h.opens []).ends
  cases hends

/-! ## Methods in front of what they read -/

theorem ok_bind {α β : Type} {method : ParseResult α} {next : α → ParseResult β} {s t : State}
    {a : α} (h : method s = .ok a t) : (method >>= next) s = next a t := by
  show EStateM.bind method next s = next a t
  rw [EStateM.bind, h]

theorem eat_head (token : Token) (ts : List Token) (t : State) :
    eat token (behind (token :: ts) t) = .ok true (behind ts t) := by
  have h := eat_behind token (behind ts t)
  rw [behind_behind] at h
  exact h

theorem eat_op_head (op : Operator) (ts : List Token) (t : State) :
    eat_op op (behind (.operator op :: ts) t) = .ok true (behind ts t) := eat_head _ _ _

theorem eat_op_other {op : Operator} {s : State} (h : s.tokens.head? ≠ some (.operator op)) :
    eat_op op s = .ok false s := eat_other h

theorem eat_punct_head (punct : Punctuation) (ts : List Token) (t : State) :
    eat_punct punct (behind (.punctuation punct :: ts) t) = .ok true (behind ts t) := eat_head _ _ _

theorem eat_punct_other {punct : Punctuation} {s : State}
    (h : s.tokens.head? ≠ some (.punctuation punct)) : eat_punct punct s = .ok false s :=
  eat_other h

theorem peek_is_punct_eq (punct : Punctuation) (s : State) :
    peek_is_punct punct s = .ok (s.tokens[0]? == some (.punctuation punct)) s :=
  peek_nth_is_ok.mpr ⟨rfl, rfl⟩

theorem peek_nth_is_op_eq (n : Nat) (op : Operator) (s : State) :
    peek_nth_is_op n op s = .ok (s.tokens[n]? == some (.operator op)) s :=
  peek_nth_is_ok.mpr ⟨rfl, rfl⟩

theorem advance_head (token : Token) (ts : List Token) (t : State) :
    advance (behind (token :: ts) t) = .ok () (behind ts t) := rfl

theorem try_parse_pattern_count_behind {text : List Char} {n : Nat}
    (h : pattern_count text = some n) (ts : List Token) (t : State) :
    try_parse_pattern_count (behind (.number text :: ts) t) = .ok (some n) (behind ts t) := by
  rw [try_parse_pattern_count, ok_bind (peek_eq _)]
  show (advance >>= fun _ => _) (behind (.number text :: ts) t) = _
  rw [ok_bind (advance_head _ _ _), h]
  rfl

theorem try_parse_pattern_count_other {s : State}
    (h : ∀ text, s.tokens.head? ≠ some (.number text)) :
    try_parse_pattern_count s = .ok none s := by
  rw [try_parse_pattern_count, ok_bind (peek_eq _)]
  cases hhead : s.tokens.head? with
  | none => rfl
  | some token =>
    cases token with
    | number text => exact absurd hhead (h text)
    | _ => rfl

/-- The counts of a bound are read up to its closing brace. -/
theorem parse_row_pattern_counts_behind {ts : List Token} {quantifier : RepetitionQuantifier}
    (h : Counts ts quantifier) (t : State) :
    parse_row_pattern_counts (behind ts (behind [.punctuation .RBrace] t)) =
      .ok quantifier (behind [.punctuation .RBrace] t) := by
  have hnone (us : List Token) (u : State)
      (hus : ∀ text, (us ++ u.tokens).head? ≠ some (.number text)) :
      try_parse_pattern_count (behind us u) = .ok none (behind us u) :=
    try_parse_pattern_count_other hus
  rw [parse_row_pattern_counts, behind_behind]
  cases h with
  | exactly hn =>
    rw [List.singleton_append, ok_bind (try_parse_pattern_count_behind hn _ _),
      ok_bind (eat_punct_other (by simp [behind]))]
    rfl
  | at_least hn =>
    rw [List.cons_append, ok_bind (try_parse_pattern_count_behind hn _ _), List.singleton_append,
      ok_bind (eat_punct_head _ _ _), if_pos rfl, ok_bind (hnone _ _ (by simp))]
    rfl
  | at_most hm =>
    rw [ok_bind (hnone _ _ (by simp)), List.cons_append, ok_bind (eat_punct_head _ _ _), if_pos rfl,
      List.singleton_append, ok_bind (try_parse_pattern_count_behind hm _ _)]
    rfl
  | range hn hm =>
    rw [List.cons_append, ok_bind (try_parse_pattern_count_behind hn _ _), List.cons_append,
      ok_bind (eat_punct_head _ _ _), if_pos rfl, List.singleton_append,
      ok_bind (try_parse_pattern_count_behind hm _ _)]
    rfl

theorem counts_head {ts : List Token} {quantifier : RepetitionQuantifier}
    (h : Counts ts quantifier) (rest : List Token) :
    (ts ++ rest).head? ≠ some (.operator .Minus) := by
  cases h <;> simp

theorem parse_row_pattern_quantifier_behind {ts : List Token}
    {quantifier : RepetitionQuantifier} (h : Quantified ts quantifier) (t : State) :
    parse_row_pattern_quantifier (behind ts t) = .ok (some quantifier) t := by
  rw [parse_row_pattern_quantifier]
  cases h with
  | star =>
    rw [ok_bind (eat_op_head _ _ _)]
    rfl
  | plus =>
    rw [ok_bind (eat_op_other (by simp [behind])), if_neg Bool.false_ne_true,
      ok_bind (eat_op_head _ _ _)]
    rfl
  | @bound us quantifier hcounts =>
    have hsplit : behind (.punctuation .LBrace :: (us ++ [.punctuation .RBrace])) t =
        behind [.punctuation .LBrace] (behind us (behind [.punctuation .RBrace] t)) := by
      rw [behind_behind, behind_behind]
      rfl
    rw [hsplit]
    have hbrace : peek_is_punct .LBrace
        (behind [.punctuation .LBrace] (behind us (behind [.punctuation .RBrace] t))) =
          .ok true (behind [.punctuation .LBrace] (behind us (behind [.punctuation .RBrace] t))) :=
      peek_nth_is_ok.mpr ⟨rfl, rfl⟩
    have hminus : peek_nth_is_op 1 .Minus
        (behind [.punctuation .LBrace] (behind us (behind [.punctuation .RBrace] t))) =
          .ok false
            (behind [.punctuation .LBrace] (behind us (behind [.punctuation .RBrace] t))) := by
      apply peek_nth_is_ok.mpr
      refine ⟨?_, rfl⟩
      have hhead := counts_head hcounts (.punctuation .RBrace :: t.tokens)
      rw [List.head?_eq_getElem?] at hhead
      rw [beq_eq_false_iff_ne]
      exact hhead
    rw [ok_bind (eat_op_other (by simp [behind])), if_neg Bool.false_ne_true,
      ok_bind (eat_op_other (by simp [behind])), if_neg Bool.false_ne_true, ok_bind hbrace,
      ok_bind hminus]
    show (parse_row_pattern_bound >>= fun bound => pure (some bound)) _ = _
    rw [ok_bind (a := quantifier) (t := t)]
    · rfl
    · rw [parse_row_pattern_bound, ok_bind (expect_punct_behind _ _ _),
        ok_bind (parse_row_pattern_counts_behind hcounts t), ok_bind (expect_punct_behind _ _ _)]
      rfl

theorem parse_row_pattern_quantifier_other {s : State} (h : quantifies s.tokens = false) :
    parse_row_pattern_quantifier s = .ok none s := by
  have hstar : s.tokens.head? ≠ some (.operator .Star) := by
    intro hhead
    rw [behind_of_head hhead] at h
    cases h
  have hplus : s.tokens.head? ≠ some (.operator .Plus) := by
    intro hhead
    rw [behind_of_head hhead] at h
    cases h
  rw [parse_row_pattern_quantifier, ok_bind (eat_op_other hstar),
    if_neg Bool.false_ne_true, ok_bind (eat_op_other hplus), if_neg Bool.false_ne_true,
    ok_bind (peek_is_punct_eq _ s), ok_bind (peek_nth_is_op_eq 1 _ s), if_neg]
  · rfl
  · intro hbound
    rw [Bool.and_eq_true, Bool.not_eq_true', beq_iff_eq, beq_eq_false_iff_ne] at hbound
    obtain ⟨hbrace, hminus⟩ := hbound
    cases htokens : s.tokens with
    | nil =>
      rw [htokens] at hbrace
      cases hbrace
    | cons first rest =>
      rw [htokens] at hbrace hminus h
      cases hbrace
      cases rest with
      | nil => cases h
      | cons second rest =>
        by_cases hsecond : second = .operator .Minus
        · rw [hsecond] at hminus
          exact hminus rfl
        · unfold quantifies at h
          split at h
          · cases h
          · cases h
          · rename_i heq
            exact hsecond (List.cons.inj (List.cons.inj heq).2).1
          · cases h
          · rename_i hother
            exact hother _ rfl

theorem parse_ident_behind {token : Token} {symbol : Ident}
    (h : expr.column_name features token = some symbol) (t : State) :
    parse_ident features (behind [token] t) = .ok symbol t := by
  have hhead : (behind [token] t).tokens.head?.bind (expr.column_name features) = some symbol := h
  rw [parse_ident, ok_bind (peek_eq _), hhead]
  rfl

theorem eat_permute_head {token : Token} (h : is_permute token = true) (ts : List Token)
    (t : State) : eat_permute (behind (token :: ts) t) = .ok true (behind ts t) := by
  rw [eat_permute, ok_bind (peek_eq _)]
  show (if is_permute token = true then _ else _ : ParseResult Bool) _ = _
  rw [if_pos h]
  rfl

theorem eat_permute_other {token : Token} (h : is_permute token = false) (ts : List Token)
    (t : State) : eat_permute (behind (token :: ts) t) = .ok false (behind (token :: ts) t) := by
  rw [eat_permute, ok_bind (peek_eq _)]
  show (if is_permute token = true then _ else _ : ParseResult Bool) _ = _
  rw [h]
  rfl

theorem peek_ends_eq (s : State) :
    peek_ends_row_pattern_sequence s = .ok (ends_sequence s.tokens) s := rfl

/-- A token with which a primary starts that no earlier branch of the primaries takes. -/
structure Unclaimed (token : Token) : Prop where
  caret : token ≠ .operator .Caret
  paren : token ≠ .lparen
  brace : token ≠ .punctuation .LBrace

theorem unclaimed_of_permute {token : Token} (h : is_permute token = true) : Unclaimed token := by
  cases token with
  | word text => exact ⟨Token.noConfusion, Token.noConfusion, Token.noConfusion⟩
  | _ => cases h

theorem unclaimed_of_name {token : Token} {symbol : Ident}
    (h : expr.column_name features token = some symbol) : Unclaimed token := by
  cases token with
  | word text => exact ⟨Token.noConfusion, Token.noConfusion, Token.noConfusion⟩
  | quoted_ident text => exact ⟨Token.noConfusion, Token.noConfusion, Token.noConfusion⟩
  | keyword keyword => exact ⟨Token.noConfusion, Token.noConfusion, Token.noConfusion⟩
  | _ => cases h

/-- The primaries that start with a word. -/
theorem parse_row_pattern_primary_word {token : Token} (h : Unclaimed token)
    (pattern : ParseResult MatchRecognizePattern) (ts : List Token) (t : State) :
    parse_row_pattern_primary features pattern (behind (token :: ts) t) =
      (do
        if ← eat_permute then
          expect_punct .LParen "`(` after PERMUTE"
          let patterns ← parse_comma_separated pattern
          expect_punct .RParen "`)` to close PERMUTE"
          return .Permute patterns
        else
          let symbol ← parse_ident features
          return .Symbol symbol : ParseResult MatchRecognizePattern) (behind (token :: ts) t) := by
  have hcaret : (behind (token :: ts) t).tokens.head? ≠ some (.operator .Caret) :=
    fun heq => h.caret (Option.some.inj heq)
  have hparen : (behind (token :: ts) t).tokens.head? ≠ some .lparen :=
    fun heq => h.paren (Option.some.inj heq)
  have hbrace : peek_is_punct .LBrace (behind (token :: ts) t) =
      .ok false (behind (token :: ts) t) := by
    apply peek_nth_is_ok.mpr
    refine ⟨?_, rfl⟩
    rw [beq_eq_false_iff_ne]
    exact fun heq => h.brace (Option.some.inj heq)
  rw [parse_row_pattern_primary, ok_bind (eat_op_other hcaret), if_neg Bool.false_ne_true,
    ok_bind (eat_punct_other hparen), if_neg Bool.false_ne_true, ok_bind hbrace,
    ok_bind (peek_nth_is_op_eq 1 _ _), Bool.false_and, if_neg Bool.false_ne_true]

/-! ## Parts -/

/-- The methods read the tokens of a part into its patterns, in front of what ends it. -/
def Parses (features : FeatureSet) (n : Nat) (rank : Rank) (ts : List Token)
    (ps : List MatchRecognizePattern) : Prop :=
  let pattern := parse_row_pattern features n
  match rank with
  | .primary => ∀ p t, ps = [p] → parse_row_pattern_primary features pattern (behind ts t) = .ok p t
  | .factor => ∀ p t, ps = [p] → quantifies t.tokens = false →
    parse_row_pattern_factor features pattern (behind ts t) = .ok p t
  | .factors => ∀ m t, ts.length ≤ m → ends_sequence t.tokens = true →
    concat_tail features pattern m (behind ts t) = .ok ps t
  | .sequence => ∀ p t, ps = [p] → ends_sequence t.tokens = true →
    parse_row_pattern_concat features pattern (behind ts t) = .ok p t
  | .sequences => ∀ m t, ts.length ≤ m → Closes t.tokens →
    alternation_tail features pattern m (behind (.operator .Pipe :: ts) t) = .ok ps t
  | .alternatives => ∀ p t, ps = [p] → Closes t.tokens →
    parse_row_pattern_alternation features pattern (behind ts t) = .ok p t
  | .members => ∀ t, Closes t.tokens → t.tokens.head? ≠ some .comma →
    parse_comma_separated (parse_row_pattern features (n + 1)) (behind ts t) = .ok ps t ∧
      ∀ m, ts.length ≤ m →
        comma_separated_tail (parse_row_pattern features (n + 1)) m (behind (.comma :: ts) t) =
          .ok ps t

theorem concat_tail_end {pattern : ParseResult MatchRecognizePattern} {s : State}
    (h : ends_sequence s.tokens = true) (m : Nat) :
    concat_tail features pattern m s = .ok [] s := by
  cases m with
  | zero => rfl
  | succ m =>
    rw [concat_tail, ok_bind (peek_ends_eq s), if_pos h]
    rfl

theorem alternation_tail_end {pattern : ParseResult MatchRecognizePattern} {s : State}
    (h : s.tokens.head? ≠ some (.operator .Pipe)) (m : Nat) :
    alternation_tail features pattern m s = .ok [] s := by
  cases m with
  | zero => rfl
  | succ m =>
    rw [alternation_tail, ok_bind (eat_op_other h)]
    rfl

theorem comma_separated_tail_end {α : Type} {item : ParseResult α} {s : State}
    (h : s.tokens.head? ≠ some .comma) (m : Nat) :
    comma_separated_tail item m s = .ok [] s := by
  cases m with
  | zero => rfl
  | succ m =>
    rw [comma_separated_tail, ok_bind (eat_punct_other h)]
    rfl

/-- A factor and those behind it, in front of the end of the sequence. -/
theorem concat_tail_more {n m : Nat} {ts us : List Token} {p : MatchRecognizePattern}
    {ps : List MatchRecognizePattern} {t : State} (hts : Reads features n .factor ts [p])
    (hp : parse_row_pattern_factor features (parse_row_pattern features n)
      (behind ts (behind us t)) = .ok p (behind us t))
    (hps : concat_tail features (parse_row_pattern features n) m (behind us t) = .ok ps t) :
    concat_tail features (parse_row_pattern features n) (m + 1) (behind (ts ++ us) t) =
      .ok (p :: ps) t := by
  have hends : ends_sequence (behind ts (behind us t)).tokens = false := (hts.opens _).ends
  rw [concat_tail, ← behind_behind, ok_bind (peek_ends_eq _), hends, if_neg Bool.false_ne_true,
    ok_bind hp, ok_bind hps]
  rfl

theorem Reads.parses {n : Nat} {rank : Rank} {ts : List Token} {ps : List MatchRecognizePattern}
    (h : Reads features n rank ts ps) : Parses features n rank ts ps := by
  induction h with
  | @symbol n token symbol h hpermute =>
    intro p t hp
    obtain rfl := List.singleton_injective hp
    rw [parse_row_pattern_primary_word (unclaimed_of_name h), ok_bind (eat_permute_other hpermute _ _),
      if_neg Bool.false_ne_true, ok_bind (parse_ident_behind h t)]
    rfl
  | start =>
    intro p t hp
    obtain rfl := List.singleton_injective hp
    rw [parse_row_pattern_primary, ok_bind (eat_op_head _ _ _)]
    rfl
  | @group n ts inner h ih =>
    intro p t hp
    obtain rfl := List.singleton_injective hp
    have hinner : parse_row_pattern features (n + 1) (behind ts (behind [.rparen] t)) =
        .ok inner (behind [.rparen] t) := ih inner _ rfl ⟨rfl, by simp [behind]⟩
    have hcaret : (behind (.lparen :: (ts ++ [.rparen])) t).tokens.head? ≠
        some (.operator .Caret) := by simp [behind]
    rw [parse_row_pattern_primary, ok_bind (eat_op_other hcaret), if_neg Bool.false_ne_true,
      ok_bind (eat_punct_head _ _ _), if_pos rfl, ← behind_behind, ok_bind hinner,
      ok_bind (expect_punct_behind _ _ _)]
    rfl
  | @exclude n ts inner h ih =>
    intro p t hp
    obtain rfl := List.singleton_injective hp
    let close : List Token := [.operator .Minus, .punctuation .RBrace]
    let u : State := behind (.punctuation .LBrace :: .operator .Minus :: (ts ++ close)) t
    have hinner : parse_row_pattern features (n + 1) (behind ts (behind close t)) =
        .ok inner (behind close t) := ih inner _ rfl ⟨rfl, by simp [behind, close]⟩
    have hcaret : u.tokens.head? ≠ some (.operator .Caret) := by simp [u, behind]
    have hparen : u.tokens.head? ≠ some .lparen := by simp [u, behind]
    have hbrace : peek_is_punct .LBrace u = .ok true u := peek_is_punct_eq _ u
    have hminus : peek_nth_is_op 1 .Minus u = .ok true u := peek_nth_is_op_eq 1 _ u
    have hend : behind close t = behind [.operator .Minus] (behind [.punctuation .RBrace] t) := by
      rw [behind_behind]
      rfl
    show parse_row_pattern_primary features _ u = _
    rw [parse_row_pattern_primary, ok_bind (eat_op_other hcaret), if_neg Bool.false_ne_true,
      ok_bind (eat_punct_other hparen), if_neg Bool.false_ne_true, ok_bind hbrace, ok_bind hminus,
      Bool.and_self, if_pos rfl, ok_bind (advance_head _ _ _), ok_bind (advance_head _ _ _), ← behind_behind,
      ok_bind hinner, hend, ok_bind (expect_op_behind _ _ _), ok_bind (expect_punct_behind _ _ _)]
    rfl
  | @permute n token ts ps htoken h ih =>
    intro p t hp
    obtain rfl := List.singleton_injective hp
    have hmembers := (ih (behind [.rparen] t) ⟨rfl, by simp [behind]⟩ (by simp [behind])).1
    have hopen : behind (.lparen :: (ts ++ [.rparen])) t =
        behind [.lparen] (behind ts (behind [.rparen] t)) := by
      rw [behind_behind, behind_behind]
      rfl
    rw [parse_row_pattern_primary_word (unclaimed_of_permute htoken),
      ok_bind (eat_permute_head htoken _ _), if_pos rfl, hopen,
      ok_bind (expect_punct_behind _ _ _), ok_bind hmembers, ok_bind (expect_punct_behind _ _ _)]
    rfl
  | @bare n ts inner h ih =>
    intro p t hp hquantifies
    obtain rfl := List.singleton_injective hp
    rw [parse_row_pattern_factor, ok_bind (ih inner t rfl),
      ok_bind (parse_row_pattern_quantifier_other hquantifies)]
    rfl
  | @repetition n ts us inner quantifier h hquantifier ih =>
    intro p t hp _
    obtain rfl := List.singleton_injective hp
    rw [parse_row_pattern_factor, ← behind_behind, ok_bind (ih inner _ rfl),
      ok_bind (parse_row_pattern_quantifier_behind hquantifier t)]
    rfl
  | @last_factor n ts p h ih =>
    intro m t hm hends
    have hpos := h.length_pos
    obtain ⟨m, rfl⟩ : ∃ k, m = k + 1 := ⟨m - 1, by omega⟩
    have hp := ih p t rfl (not_quantifies_of_ends hends)
    have hstop : concat_tail features (parse_row_pattern features n) m (behind [] t) = .ok [] t :=
      concat_tail_end hends m
    have hmore := @concat_tail_more features n m ts [] p [] t h hp hstop
    rw [List.append_nil] at hmore
    exact hmore
  | @factor n ts us p ps h hrest ih ihrest =>
    intro m t hm hends
    have hpos := h.length_pos
    rw [List.length_append] at hm
    obtain ⟨m, rfl⟩ : ∃ k, m = k + 1 := ⟨m - 1, by omega⟩
    exact concat_tail_more h (ih p (behind us t) rfl (hrest.opens t.tokens).quantifies)
      (ihrest m t (by omega) hends)
  | @single n ts inner h ih =>
    intro p t hp hends
    obtain rfl := List.singleton_injective hp
    rw [parse_row_pattern_concat, ok_bind (ih inner t rfl (not_quantifies_of_ends hends)),
      ok_bind (peek_ends_eq t), hends, if_pos rfl]
    rfl
  | @concat n ts us inner ps h hrest ih ihrest =>
    intro p t hp hends
    obtain rfl := List.singleton_injective hp
    have hopens : Opens (behind us t).tokens := hrest.opens t.tokens
    have hlength : us.length ≤ (behind us t).tokens.length := by
      rw [behind_tokens, List.length_append]
      omega
    rw [parse_row_pattern_concat, ← behind_behind,
      ok_bind (ih inner (behind us t) rfl hopens.quantifies), ok_bind (peek_ends_eq _), hopens.ends,
      if_neg Bool.false_ne_true, ok_bind (ParseResult.get_ok.mpr ⟨rfl, rfl⟩),
      ok_bind (ihrest _ t hlength hends)]
    rfl
  | @last_sequence n ts p h ih =>
    intro m t hm hcloses
    have hpos := h.length_pos
    obtain ⟨m, rfl⟩ : ∃ k, m = k + 1 := ⟨m - 1, by omega⟩
    rw [alternation_tail, ok_bind (eat_op_head _ _ _), if_pos rfl, ok_bind (ih p t rfl hcloses.ends),
      ok_bind (alternation_tail_end hcloses.pipe m)]
    rfl
  | @sequence n ts us p ps h hrest ih ihrest =>
    intro m t hm hcloses
    have hpos := h.length_pos
    rw [List.length_append, List.length_cons] at hm
    obtain ⟨m, rfl⟩ : ∃ k, m = k + 1 := ⟨m - 1, by omega⟩
    rw [alternation_tail, ok_bind (eat_op_head _ _ _), if_pos rfl, ← behind_behind,
      ok_bind (ih p _ rfl rfl), ok_bind (ihrest m t (by omega) hcloses)]
    rfl
  | @unbranched n ts inner h ih =>
    intro p t hp hcloses
    obtain rfl := List.singleton_injective hp
    have hpipe : peek_nth_is_op 0 .Pipe t = .ok false t := by
      apply peek_nth_is_ok.mpr
      refine ⟨?_, rfl⟩
      rw [beq_eq_false_iff_ne, ← List.head?_eq_getElem?]
      exact hcloses.pipe
    rw [parse_row_pattern_alternation, ok_bind (ih inner t rfl hcloses.ends), ok_bind hpipe,
      if_neg Bool.false_ne_true]
    rfl
  | @alternation n ts us inner ps h hrest ih ihrest =>
    intro p t hp hcloses
    obtain rfl := List.singleton_injective hp
    have hpipe : peek_nth_is_op 0 .Pipe (behind (.operator .Pipe :: us) t) =
        .ok true (behind (.operator .Pipe :: us) t) := peek_nth_is_ok.mpr ⟨rfl, rfl⟩
    have hlength : us.length ≤ (behind (.operator .Pipe :: us) t).tokens.length := by
      rw [behind_tokens, List.length_append, List.length_cons]
      omega
    rw [parse_row_pattern_alternation, ← behind_behind, ok_bind (ih inner _ rfl rfl), ok_bind hpipe,
      if_pos rfl, ok_bind (ParseResult.get_ok.mpr ⟨rfl, rfl⟩), ok_bind (ihrest _ t hlength hcloses)]
    rfl
  | @last_member n ts p h ih =>
    intro t hcloses hcomma
    have hp : parse_row_pattern features (n + 1) (behind ts t) = .ok p t := ih p t rfl hcloses
    constructor
    · rw [parse_comma_separated, ok_bind hp, ok_bind (ParseResult.get_ok.mpr ⟨rfl, rfl⟩),
        ok_bind (comma_separated_tail_end hcomma _)]
      rfl
    · intro m hm
      have hpos := h.length_pos
      obtain ⟨m, rfl⟩ : ∃ k, m = k + 1 := ⟨m - 1, by omega⟩
      rw [comma_separated_tail, ok_bind (eat_punct_head _ _ _), if_pos rfl, ok_bind hp,
        ok_bind (comma_separated_tail_end hcomma m)]
      rfl
  | @member n ts us p ps h hrest ih ihrest =>
    intro t hcloses hcomma
    have hp : parse_row_pattern features (n + 1) (behind ts (behind (.comma :: us) t)) =
        .ok p (behind (.comma :: us) t) := ih p _ rfl ⟨rfl, by simp [behind]⟩
    have htail := (ihrest t hcloses hcomma).2
    constructor
    · have hlength : us.length ≤ (behind (.comma :: us) t).tokens.length := by
        rw [behind_tokens, List.length_append, List.length_cons]
        omega
      rw [parse_comma_separated, ← behind_behind, ok_bind hp,
        ok_bind (ParseResult.get_ok.mpr ⟨rfl, rfl⟩), ok_bind (htail _ hlength)]
      rfl
    · intro m hm
      have hpos := h.length_pos
      rw [List.length_append, List.length_cons] at hm
      obtain ⟨m, rfl⟩ : ∃ k, m = k + 1 := ⟨m - 1, by omega⟩
      rw [comma_separated_tail, ok_bind (eat_punct_head _ _ _), if_pos rfl, ← behind_behind,
        ok_bind hp, ok_bind (htail m (by omega))]
      rfl

/-- The tokens of a pattern are read into the pattern, in front of what ends it. -/
theorem Reads.parse_row_pattern {n : Nat} {ts : List Token} {p : MatchRecognizePattern}
    (h : Reads features n .alternatives ts [p]) {t : State} (ht : Closes t.tokens) :
    row_pattern.parse_row_pattern features (n + 1) (behind ts t) = .ok p t :=
  h.parses p t rfl ht

end

end squonk.parser.row_pattern
