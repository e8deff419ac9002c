import Squonk.Parser.RowPattern

/-!
# How row patterns group

The grammar of row patterns as a relation between tokens and trees: a quantifier holds a primary,
a sequence holds factors, alternatives hold sequences. The parser reads a tree from exactly the
tokens that the grammar gives it, as deep as its levels of recursion allow.
-/

open squonk.ast squonk.dialect squonk.tokenizer

namespace squonk.parser.row_pattern

/-! ## The grammar -/

/-- The counts of a bound, between its braces. -/
inductive Counts : List Token → RepetitionQuantifier → Prop
  | exactly {text : List Char} {n : Nat} (h : pattern_count text = some n) :
    Counts [.number text] (.Exactly n)
  | at_least {text : List Char} {n : Nat} (h : pattern_count text = some n) :
    Counts [.number text, .comma] (.AtLeast n)
  | at_most {text : List Char} {m : Nat} (h : pattern_count text = some m) :
    Counts [.comma, .number text] (.AtMost m)
  | range {text text' : List Char} {n m : Nat} (h : pattern_count text = some n)
      (h' : pattern_count text' = some m) :
    Counts [.number text, .comma, .number text'] (.Range n m)

inductive Quantified : List Token → RepetitionQuantifier → Prop
  | star : Quantified [.operator .Star] .ZeroOrMore
  | plus : Quantified [.operator .Plus] .OneOrMore
  | bound {ts : List Token} {quantifier : RepetitionQuantifier} (h : Counts ts quantifier) :
    Quantified (.punctuation .LBrace :: (ts ++ [.punctuation .RBrace])) quantifier

/-- The parts of a pattern, from the tightest on. -/
inductive Rank
  | primary | factor | factors | sequence | sequences | alternatives | members
  deriving DecidableEq

/-- The patterns of a part and their tokens. A pattern of `n` levels stands in parentheses, in an
exclusion or in `PERMUTE` where one level more is there. -/
inductive Reads (features : FeatureSet) :
    Nat → Rank → List Token → List MatchRecognizePattern → Prop
  | symbol {n : Nat} {t : Token} {symbol : Ident} (h : expr.column_name features t = some symbol)
      (hpermute : is_permute t = false) : Reads features n .primary [t] [.Symbol symbol]
  | start {n : Nat} : Reads features n .primary [.operator .Caret] [.Start]
  | group {n : Nat} {ts : List Token} {p : MatchRecognizePattern}
      (h : Reads features n .alternatives ts [p]) :
    Reads features (n + 1) .primary (.lparen :: (ts ++ [.rparen])) [.Group p]
  | exclude {n : Nat} {ts : List Token} {p : MatchRecognizePattern}
      (h : Reads features n .alternatives ts [p]) :
    Reads features (n + 1) .primary
      (.punctuation .LBrace :: .operator .Minus ::
        (ts ++ [.operator .Minus, .punctuation .RBrace])) [.Exclude p]
  | permute {n : Nat} {t : Token} {ts : List Token} {ps : List MatchRecognizePattern}
      (ht : is_permute t = true) (h : Reads features n .members ts ps) :
    Reads features (n + 1) .primary (t :: .lparen :: (ts ++ [.rparen])) [.Permute ps]
  | bare {n : Nat} {ts : List Token} {p : MatchRecognizePattern}
      (h : Reads features n .primary ts [p]) : Reads features n .factor ts [p]
  | repetition {n : Nat} {ts us : List Token} {p : MatchRecognizePattern}
      {quantifier : RepetitionQuantifier} (h : Reads features n .primary ts [p])
      (hquantifier : Quantified us quantifier) :
    Reads features n .factor (ts ++ us) [.Repetition p quantifier]
  | last_factor {n : Nat} {ts : List Token} {p : MatchRecognizePattern}
      (h : Reads features n .factor ts [p]) : Reads features n .factors ts [p]
  | factor {n : Nat} {ts us : List Token} {p : MatchRecognizePattern}
      {ps : List MatchRecognizePattern} (h : Reads features n .factor ts [p])
      (hrest : Reads features n .factors us ps) : Reads features n .factors (ts ++ us) (p :: ps)
  | single {n : Nat} {ts : List Token} {p : MatchRecognizePattern}
      (h : Reads features n .factor ts [p]) : Reads features n .sequence ts [p]
  | concat {n : Nat} {ts us : List Token} {p : MatchRecognizePattern}
      {ps : List MatchRecognizePattern} (h : Reads features n .factor ts [p])
      (hrest : Reads features n .factors us ps) :
    Reads features n .sequence (ts ++ us) [.Concat (p :: ps)]
  | last_sequence {n : Nat} {ts : List Token} {p : MatchRecognizePattern}
      (h : Reads features n .sequence ts [p]) : Reads features n .sequences ts [p]
  | sequence {n : Nat} {ts us : List Token} {p : MatchRecognizePattern}
      {ps : List MatchRecognizePattern} (h : Reads features n .sequence ts [p])
      (hrest : Reads features n .sequences us ps) :
    Reads features n .sequences (ts ++ .operator .Pipe :: us) (p :: ps)
  | unbranched {n : Nat} {ts : List Token} {p : MatchRecognizePattern}
      (h : Reads features n .sequence ts [p]) : Reads features n .alternatives ts [p]
  | alternation {n : Nat} {ts us : List Token} {p : MatchRecognizePattern}
      {ps : List MatchRecognizePattern} (h : Reads features n .sequence ts [p])
      (hrest : Reads features n .sequences us ps) :
    Reads features n .alternatives (ts ++ .operator .Pipe :: us) [.Alternation (p :: ps)]
  | last_member {n : Nat} {ts : List Token} {p : MatchRecognizePattern}
      (h : Reads features n .alternatives ts [p]) : Reads features n .members ts [p]
  | member {n : Nat} {ts us : List Token} {p : MatchRecognizePattern}
      {ps : List MatchRecognizePattern} (h : Reads features n .alternatives ts [p])
      (hrest : Reads features n .members us ps) :
    Reads features n .members (ts ++ .comma :: us) (p :: ps)

/-! ## Token primitives -/

/-- The state with tokens in front of it. -/
def behind (ts : List Token) (s : State) : State := { s with tokens := ts ++ s.tokens }

@[simp] theorem behind_nil (s : State) : behind [] s = s := rfl

@[simp] theorem behind_behind (ts us : List Token) (s : State) :
    behind ts (behind us s) = behind (ts ++ us) s := by
  rw [behind, behind, behind, List.append_assoc]

theorem behind_tokens (ts : List Token) (s : State) : (behind ts s).tokens = ts ++ s.tokens :=
  rfl

theorem eat_behind (token : Token) (s : State) :
    eat token (behind [token] s) = .ok true s := by
  simp [eat, peek_is, peek_nth_is, peek_nth, behind, bind, EStateM.bind, advance, modify,
    modifyGet, MonadStateOf.modifyGet, EStateM.modifyGet, get, getThe, MonadStateOf.get,
    EStateM.get, pure, EStateM.pure]

theorem eat_other {token : Token} {s : State} (h : s.tokens.head? ≠ some token) :
    eat token s = .ok false s := by
  have hhead : (s.tokens[0]? == some token) = false := by
    rw [beq_eq_false_iff_ne, ← List.head?_eq_getElem?]
    exact h
  simp [eat, peek_is, peek_nth_is, peek_nth, hhead, bind, EStateM.bind, get, getThe,
    MonadStateOf.get, EStateM.get, pure, EStateM.pure]

/-- A token is eaten where it is ahead, and else nothing is. -/
theorem eat_cases {token : Token} {s t : State} {found : Bool} (h : eat token s = .ok found t) :
    (found = true ∧ s = behind [token] t) ∨
      (found = false ∧ s = t ∧ s.tokens.head? ≠ some token) := by
  by_cases hhead : s.tokens.head? = some token
  · obtain ⟨rest, hrest⟩ : ∃ rest, s.tokens = token :: rest := by
      cases htokens : s.tokens with
      | nil =>
        rw [htokens] at hhead
        cases hhead
      | cons head rest =>
        rw [htokens] at hhead
        exact ⟨rest, by rw [Option.some.inj hhead]⟩
    have hs : s = behind [token] { s with tokens := rest } := by
      rw [behind, List.singleton_append, ← hrest]
    rw [hs, eat_behind] at h
    obtain ⟨rfl, rfl⟩ := EStateM.Result.ok.inj h
    exact .inl ⟨rfl, hs⟩
  · rw [eat_other hhead] at h
    obtain ⟨rfl, rfl⟩ := EStateM.Result.ok.inj h
    exact .inr ⟨rfl, rfl, hhead⟩

theorem expect_punct_cases {punct : Punctuation} {expected : String} {s t : State} {u : Unit}
    (h : expect_punct punct expected s = .ok u t) :
    s = behind [.punctuation punct] t := by
  rw [expect_punct, ParseResult.bind_ok] at h
  obtain ⟨found, v, hfound, h⟩ := h
  obtain ⟨rfl, hs⟩ | ⟨rfl, _⟩ := eat_cases hfound
  · obtain ⟨_, rfl⟩ := ParseResult.pure_ok.mp h
    exact hs
  · exact (unexpected_ok.mp h).elim

theorem expect_punct_behind (punct : Punctuation) (expected : String) (s : State) :
    expect_punct punct expected (behind [.punctuation punct] s) = .ok () s := by
  rw [expect_punct, ParseResult.bind_ok]
  exact ⟨true, s, eat_behind _ s, ParseResult.pure_ok.mpr ⟨rfl, rfl⟩⟩

theorem expect_op_cases {op : Operator} {expected : String} {s t : State} {u : Unit}
    (h : expect_op op expected s = .ok u t) : s = behind [.operator op] t := by
  rw [expect_op, ParseResult.bind_ok] at h
  obtain ⟨found, v, hfound, h⟩ := h
  obtain ⟨rfl, hs⟩ | ⟨rfl, _⟩ := eat_cases hfound
  · obtain ⟨_, rfl⟩ := ParseResult.pure_ok.mp h
    exact hs
  · exact (unexpected_ok.mp h).elim

theorem expect_op_behind (op : Operator) (expected : String) (s : State) :
    expect_op op expected (behind [.operator op] s) = .ok () s := by
  rw [expect_op, ParseResult.bind_ok]
  exact ⟨true, s, eat_behind _ s, ParseResult.pure_ok.mpr ⟨rfl, rfl⟩⟩

theorem peek_eq (s : State) : peek s = .ok s.tokens.head? s := by
  rw [List.head?_eq_getElem?]
  rfl

theorem advance_behind (token : Token) (s : State) : advance (behind [token] s) = .ok () s := rfl

/-! ## What is read follows the grammar -/

theorem behind_of_head {s : State} {token : Token} (h : s.tokens.head? = some token) :
    s = behind [token] { s with tokens := s.tokens.tail } := by
  cases htokens : s.tokens with
  | nil =>
    rw [htokens] at h
    cases h
  | cons head rest =>
    rw [htokens] at h
    rw [behind, ← Option.some.inj h, List.singleton_append, List.tail_cons, ← htokens]

theorem try_parse_pattern_count_cases {s t : State} {value : Option Nat}
    (h : try_parse_pattern_count s = .ok value t) :
    (∃ text n, value = some n ∧ pattern_count text = some n ∧ s = behind [.number text] t) ∨
      (value = none ∧ s = t) := by
  rw [try_parse_pattern_count, ParseResult.bind_ok] at h
  obtain ⟨token, u, hpeek, h⟩ := h
  rw [peek_eq] at hpeek
  obtain ⟨rfl, rfl⟩ := EStateM.Result.ok.inj hpeek
  cases hhead : s.tokens.head? with
  | none =>
    rw [hhead] at h
    obtain ⟨rfl, rfl⟩ := ParseResult.pure_ok.mp h
    exact .inr ⟨rfl, rfl⟩
  | some token =>
    rw [hhead] at h
    cases token with
    | number text =>
      simp only [ParseResult.bind_ok] at h
      obtain ⟨_, u, hadvance, h⟩ := h
      have hs := behind_of_head hhead
      rw [hs, advance_behind] at hadvance
      obtain ⟨_, rfl⟩ := EStateM.Result.ok.inj hadvance
      left
      cases hcount : pattern_count text with
      | none =>
        rw [hcount] at h
        exact (unexpected_ok.mp h).elim
      | some n =>
        rw [hcount] at h
        obtain ⟨rfl, rfl⟩ := ParseResult.pure_ok.mp h
        exact ⟨text, n, rfl, hcount, hs⟩
    | _ =>
      obtain ⟨rfl, rfl⟩ := ParseResult.pure_ok.mp h
      exact .inr ⟨rfl, rfl⟩

theorem parse_row_pattern_counts_reads {s t : State} {quantifier : RepetitionQuantifier}
    (h : parse_row_pattern_counts s = .ok quantifier t) :
    ∃ ts, s = behind ts t ∧ Counts ts quantifier := by
  rw [parse_row_pattern_counts, ParseResult.bind_ok] at h
  obtain ⟨low, u, hlow, h⟩ := h
  rw [ParseResult.bind_ok] at h
  obtain ⟨found, v, hcomma, h⟩ := h
  have hlow := try_parse_pattern_count_cases hlow
  obtain ⟨rfl, hu⟩ | ⟨rfl, rfl, _⟩ := eat_cases hcomma
  · rw [if_pos rfl, ParseResult.bind_ok] at h
    obtain ⟨high, w, hhigh, h⟩ := h
    have hhigh := try_parse_pattern_count_cases hhigh
    obtain ⟨text, n, rfl, hn, hs⟩ | ⟨rfl, hs⟩ := hlow
    · obtain ⟨text', m, rfl, hm, hv⟩ | ⟨rfl, hv⟩ := hhigh
      · obtain ⟨rfl, rfl⟩ := ParseResult.pure_ok.mp h
        refine ⟨_, ?_, .range hn hm⟩
        rw [hs, hu, hv, behind_behind, behind_behind]
        rfl
      · obtain ⟨rfl, rfl⟩ := ParseResult.pure_ok.mp h
        refine ⟨_, ?_, .at_least hn⟩
        rw [hs, hu, hv, behind_behind]
        rfl
    · obtain ⟨text', m, rfl, hm, hv⟩ | ⟨rfl, hv⟩ := hhigh
      · obtain ⟨rfl, rfl⟩ := ParseResult.pure_ok.mp h
        refine ⟨_, ?_, .at_most hm⟩
        rw [hs, hu, hv, behind_behind]
        rfl
      · exact (unexpected_ok.mp h).elim
  · rw [if_neg Bool.false_ne_true] at h
    obtain ⟨text, n, rfl, hn, hs⟩ | ⟨rfl, hs⟩ := hlow
    · obtain ⟨rfl, rfl⟩ := ParseResult.pure_ok.mp h
      exact ⟨_, hs, .exactly hn⟩
    · exact (unexpected_ok.mp h).elim

theorem parse_row_pattern_bound_reads {s t : State} {quantifier : RepetitionQuantifier}
    (h : parse_row_pattern_bound s = .ok quantifier t) :
    ∃ ts, s = behind ts t ∧ Quantified ts quantifier := by
  rw [parse_row_pattern_bound, ParseResult.bind_ok] at h
  obtain ⟨_, u, hopen, h⟩ := h
  rw [ParseResult.bind_ok] at h
  obtain ⟨read, v, hcounts, h⟩ := h
  rw [ParseResult.bind_ok] at h
  obtain ⟨_, w, hclose, h⟩ := h
  obtain ⟨rfl, rfl⟩ := ParseResult.pure_ok.mp h
  obtain ⟨ts, hu, hts⟩ := parse_row_pattern_counts_reads hcounts
  refine ⟨_, ?_, .bound hts⟩
  rw [expect_punct_cases hopen, hu, expect_punct_cases hclose, behind_behind, behind_behind]
  simp

theorem parse_row_pattern_quantifier_reads {s t : State}
    {quantifier : Option RepetitionQuantifier}
    (h : parse_row_pattern_quantifier s = .ok quantifier t) :
    (quantifier = none ∧ s = t) ∨
      ∃ ts q, quantifier = some q ∧ s = behind ts t ∧ Quantified ts q := by
  rw [parse_row_pattern_quantifier, ParseResult.bind_ok] at h
  obtain ⟨star, u, hstar, h⟩ := h
  obtain ⟨rfl, hs⟩ | ⟨rfl, rfl, _⟩ := eat_cases hstar
  · obtain ⟨rfl, rfl⟩ := ParseResult.pure_ok.mp h
    exact .inr ⟨_, _, rfl, hs, .star⟩
  rw [if_neg Bool.false_ne_true, ParseResult.bind_ok] at h
  obtain ⟨plus, u, hplus, h⟩ := h
  obtain ⟨rfl, hs⟩ | ⟨rfl, rfl, _⟩ := eat_cases hplus
  · obtain ⟨rfl, rfl⟩ := ParseResult.pure_ok.mp h
    exact .inr ⟨_, _, rfl, hs, .plus⟩
  rw [if_neg Bool.false_ne_true, ParseResult.bind_ok] at h
  obtain ⟨brace, u, hbrace, h⟩ := h
  obtain ⟨_, rfl⟩ := peek_nth_is_ok.mp hbrace
  rw [ParseResult.bind_ok] at h
  obtain ⟨minus, u, hminus, h⟩ := h
  obtain ⟨_, rfl⟩ := peek_nth_is_ok.mp hminus
  split at h
  · rw [ParseResult.bind_ok] at h
    obtain ⟨bound, u, hbound, h⟩ := h
    obtain ⟨rfl, rfl⟩ := ParseResult.pure_ok.mp h
    obtain ⟨ts, hs, hts⟩ := parse_row_pattern_bound_reads hbound
    exact .inr ⟨ts, bound, rfl, hs, hts⟩
  · obtain ⟨rfl, rfl⟩ := ParseResult.pure_ok.mp h
    exact .inl ⟨rfl, rfl⟩

section
variable {features : FeatureSet}

theorem parse_ident_reads {s t : State} {symbol : Ident}
    (h : parse_ident features s = .ok symbol t) :
    ∃ token, s = behind [token] t ∧ expr.column_name features token = some symbol ∧
      s.tokens.head? = some token := by
  rw [parse_ident, ParseResult.bind_ok] at h
  obtain ⟨token, u, hpeek, h⟩ := h
  rw [peek_eq] at hpeek
  obtain ⟨rfl, rfl⟩ := EStateM.Result.ok.inj hpeek
  cases hsymbol : s.tokens.head?.bind (expr.column_name features) with
  | none =>
    rw [hsymbol] at h
    exact (unexpected_ok.mp h).elim
  | some found =>
    obtain ⟨token, hhead, hname⟩ := Option.bind_eq_some_iff.mp hsymbol
    rw [hsymbol, ParseResult.bind_ok] at h
    obtain ⟨_, u, hadvance, h⟩ := h
    obtain ⟨rfl, rfl⟩ := ParseResult.pure_ok.mp h
    have hs := behind_of_head hhead
    rw [hs, advance_behind] at hadvance
    obtain ⟨_, rfl⟩ := EStateM.Result.ok.inj hadvance
    exact ⟨token, hs, hname, hhead⟩

theorem eat_permute_cases {s t : State} {found : Bool} (h : eat_permute s = .ok found t) :
    (found = true ∧ ∃ token, is_permute token = true ∧ s = behind [token] t) ∨
      (found = false ∧ s = t ∧ s.tokens.head?.any is_permute = false) := by
  rw [eat_permute, ParseResult.bind_ok] at h
  obtain ⟨token, u, hpeek, h⟩ := h
  rw [peek_eq] at hpeek
  obtain ⟨rfl, rfl⟩ := EStateM.Result.ok.inj hpeek
  by_cases hpermute : s.tokens.head?.any is_permute = true
  · rw [if_pos hpermute, ParseResult.bind_ok] at h
    obtain ⟨_, u, hadvance, h⟩ := h
    obtain ⟨rfl, rfl⟩ := ParseResult.pure_ok.mp h
    obtain ⟨token, hhead, htoken⟩ : ∃ token, s.tokens.head? = some token ∧
        is_permute token = true := by
      cases hhead : s.tokens.head? with
      | none =>
        rw [hhead] at hpermute
        cases hpermute
      | some token =>
        rw [hhead] at hpermute
        exact ⟨token, rfl, hpermute⟩
    have hs := behind_of_head hhead
    rw [hs, advance_behind] at hadvance
    obtain ⟨_, rfl⟩ := EStateM.Result.ok.inj hadvance
    exact .inl ⟨rfl, token, htoken, hs⟩
  · rw [if_neg hpermute] at h
    obtain ⟨rfl, rfl⟩ := ParseResult.pure_ok.mp h
    exact .inr ⟨rfl, rfl, Bool.eq_false_of_not_eq_true hpermute⟩

/-- What a method reads is a part of the rank, with `n` levels below. -/
def ReadsAs (features : FeatureSet) (n : Nat) (rank : Rank)
    (method : ParseResult MatchRecognizePattern) : Prop :=
  ∀ s p t, method s = .ok p t → ∃ ts, s = behind ts t ∧ Reads features n rank ts [p]

section
variable {n : Nat} {pattern : ParseResult MatchRecognizePattern}

/-- The members of `PERMUTE`. -/
theorem members_reads (hpattern : ReadsAs features n .alternatives pattern) {s t : State}
    {ps : List MatchRecognizePattern} (h : parse_comma_separated pattern s = .ok ps t) :
    ∃ ts, s = behind ts t ∧ Reads features n .members ts ps := by
  have htail (m : Nat) (p : MatchRecognizePattern) (us : List Token)
      (hp : Reads features n .alternatives us [p]) {s t : State}
      {ps : List MatchRecognizePattern} (h : comma_separated_tail pattern m s = .ok ps t) :
      ∃ ts, s = behind ts t ∧ Reads features n .members (us ++ ts) (p :: ps) := by
    induction m generalizing p us s ps with
    | zero =>
      obtain ⟨rfl, rfl⟩ := ParseResult.pure_ok.mp h
      exact ⟨[], rfl, by rw [List.append_nil]; exact .last_member hp⟩
    | succ m ih =>
      rw [comma_separated_tail, ParseResult.bind_ok] at h
      obtain ⟨comma, v, hcomma, h⟩ := h
      obtain ⟨rfl, hs⟩ | ⟨rfl, rfl, _⟩ := eat_cases hcomma
      · rw [if_pos rfl, ParseResult.bind_ok] at h
        obtain ⟨head, w, hhead, h⟩ := h
        rw [ParseResult.bind_ok] at h
        obtain ⟨tail, x, htail, h⟩ := h
        obtain ⟨rfl, rfl⟩ := ParseResult.pure_ok.mp h
        obtain ⟨vs, hv, hvs⟩ := hpattern v head w hhead
        obtain ⟨ws, hw, hws⟩ := ih head vs hvs htail
        refine ⟨.comma :: (vs ++ ws), ?_, .member hp hws⟩
        rw [hs, hv, hw, behind_behind, behind_behind]
        rfl
      · obtain ⟨rfl, rfl⟩ := ParseResult.pure_ok.mp h
        exact ⟨[], rfl, by rw [List.append_nil]; exact .last_member hp⟩
  rw [parse_comma_separated, ParseResult.bind_ok] at h
  obtain ⟨head, u, hhead, h⟩ := h
  rw [ParseResult.bind_ok] at h
  obtain ⟨v, w, hget, h⟩ := h
  obtain ⟨rfl, rfl⟩ := ParseResult.get_ok.mp hget
  rw [ParseResult.bind_ok] at h
  obtain ⟨tail, x, hrest, h⟩ := h
  obtain ⟨rfl, rfl⟩ := ParseResult.pure_ok.mp h
  obtain ⟨us, hs, hus⟩ := hpattern s head u hhead
  obtain ⟨ts, hu, hts⟩ := htail _ head us hus hrest
  exact ⟨us ++ ts, by rw [hs, hu, behind_behind], hts⟩

theorem parse_row_pattern_primary_reads
    (hpattern : ∀ m, n = m + 1 → ReadsAs features m .alternatives pattern)
    (hlimit : n = 0 → ∀ s p t, pattern s ≠ .ok p t) :
    ReadsAs features n .primary (parse_row_pattern_primary features pattern) := by
  intro s p t h
  have hlevel {s : State} {p : MatchRecognizePattern} {t : State} (h : pattern s = .ok p t) :
      ∃ m, n = m + 1 := by
    cases n with
    | zero => exact absurd h (hlimit rfl s p t)
    | succ m => exact ⟨m, rfl⟩
  rw [parse_row_pattern_primary, ParseResult.bind_ok] at h
  obtain ⟨caret, u, hcaret, h⟩ := h
  obtain ⟨rfl, hs⟩ | ⟨rfl, rfl, _⟩ := eat_cases hcaret
  · obtain ⟨rfl, rfl⟩ := ParseResult.pure_ok.mp h
    exact ⟨_, hs, .start⟩
  rw [if_neg Bool.false_ne_true, ParseResult.bind_ok] at h
  obtain ⟨paren, u, hparen, h⟩ := h
  obtain ⟨rfl, hs⟩ | ⟨rfl, rfl, _⟩ := eat_cases hparen
  · rw [if_pos rfl, ParseResult.bind_ok] at h
    obtain ⟨inner, v, hinner, h⟩ := h
    rw [ParseResult.bind_ok] at h
    obtain ⟨_, w, hclose, h⟩ := h
    obtain ⟨rfl, rfl⟩ := ParseResult.pure_ok.mp h
    obtain ⟨m, rfl⟩ := hlevel hinner
    obtain ⟨ts, hu, hts⟩ := hpattern m rfl u inner v hinner
    refine ⟨_, ?_, .group hts⟩
    rw [hs, hu, expect_punct_cases hclose, behind_behind, behind_behind]
    rfl
  rw [if_neg Bool.false_ne_true, ParseResult.bind_ok] at h
  obtain ⟨brace, u, hpeek, h⟩ := h
  obtain ⟨hbrace, rfl⟩ := peek_nth_is_ok.mp hpeek
  rw [ParseResult.bind_ok] at h
  obtain ⟨minus, u, hpeek, h⟩ := h
  obtain ⟨hminus, rfl⟩ := peek_nth_is_ok.mp hpeek
  by_cases hexclude : (brace && minus) = true
  · rw [if_pos hexclude, ParseResult.bind_ok] at h
    obtain ⟨_, u, hfirst, h⟩ := h
    rw [ParseResult.bind_ok] at h
    obtain ⟨_, v, hsecond, h⟩ := h
    rw [ParseResult.bind_ok] at h
    obtain ⟨inner, w, hinner, h⟩ := h
    rw [ParseResult.bind_ok] at h
    obtain ⟨_, x, hclose, h⟩ := h
    rw [ParseResult.bind_ok] at h
    obtain ⟨_, y, hend, h⟩ := h
    obtain ⟨rfl, rfl⟩ := ParseResult.pure_ok.mp h
    have hs : s = behind [.punctuation .LBrace, .operator .Minus] v := by
      rw [Bool.and_eq_true] at hexclude
      rw [hexclude.1, beq_iff_eq] at hbrace
      rw [hexclude.2, beq_iff_eq] at hminus
      rw [advance_ok] at hfirst hsecond
      rw [← hsecond, ← hfirst]
      obtain ⟨tokens, _, _, _⟩ := s
      match tokens, hbrace, hminus with
      | first :: second :: rest, hbrace, hminus =>
        cases hbrace
        cases hminus
        rfl
    obtain ⟨m, rfl⟩ := hlevel hinner
    obtain ⟨ts, hv, hts⟩ := hpattern m rfl v inner w hinner
    refine ⟨_, ?_, .exclude hts⟩
    rw [hs, hv, expect_op_cases hclose, expect_punct_cases hend, behind_behind, behind_behind,
      behind_behind]
    simp
  rw [if_neg hexclude, ParseResult.bind_ok] at h
  obtain ⟨permute, u, hpermute, h⟩ := h
  obtain ⟨rfl, token, htoken, hs⟩ | ⟨rfl, rfl, hnone⟩ := eat_permute_cases hpermute
  · rw [if_pos rfl, ParseResult.bind_ok] at h
    obtain ⟨_, v, hopen, h⟩ := h
    rw [ParseResult.bind_ok] at h
    obtain ⟨patterns, w, hpatterns, h⟩ := h
    rw [ParseResult.bind_ok] at h
    obtain ⟨_, x, hclose, h⟩ := h
    obtain ⟨rfl, rfl⟩ := ParseResult.pure_ok.mp h
    have hfirst : ∃ p t, pattern v = .ok p t := by
      rw [parse_comma_separated, ParseResult.bind_ok] at hpatterns
      obtain ⟨p, t, hp, _⟩ := hpatterns
      exact ⟨p, t, hp⟩
    obtain ⟨_, _, hfirst⟩ := hfirst
    obtain ⟨m, rfl⟩ := hlevel hfirst
    obtain ⟨ts, hv, hts⟩ := members_reads (hpattern m rfl) hpatterns
    refine ⟨_, ?_, .permute htoken hts⟩
    rw [hs, expect_punct_cases hopen, hv, expect_punct_cases hclose, behind_behind, behind_behind,
      behind_behind]
    simp
  · rw [if_neg Bool.false_ne_true, ParseResult.bind_ok] at h
    obtain ⟨symbol, u, hsymbol, h⟩ := h
    obtain ⟨rfl, rfl⟩ := ParseResult.pure_ok.mp h
    obtain ⟨token, hs, hname, hhead⟩ := parse_ident_reads hsymbol
    rw [hhead] at hnone
    exact ⟨[token], hs, .symbol hname hnone⟩

section
variable (hprimary :
  ReadsAs features n .primary (parse_row_pattern_primary features pattern))
include hprimary

theorem parse_row_pattern_factor_reads :
    ReadsAs features n .factor (parse_row_pattern_factor features pattern) := by
  intro s p t h
  rw [parse_row_pattern_factor, ParseResult.bind_ok] at h
  obtain ⟨primary, u, hp, h⟩ := h
  rw [ParseResult.bind_ok] at h
  obtain ⟨quantifier, v, hquantifier, h⟩ := h
  obtain ⟨ts, hs, hts⟩ := hprimary s primary u hp
  obtain ⟨rfl, rfl⟩ | ⟨us, q, rfl, hu, hus⟩ := parse_row_pattern_quantifier_reads hquantifier
  · obtain ⟨rfl, rfl⟩ := ParseResult.pure_ok.mp h
    exact ⟨ts, hs, .bare hts⟩
  · obtain ⟨rfl, rfl⟩ := ParseResult.pure_ok.mp h
    exact ⟨ts ++ us, by rw [hs, hu, behind_behind], .repetition hts hus⟩

/-- The factors behind one, if there is any. -/
theorem concat_tail_reads {m : Nat} {s t : State} {ps : List MatchRecognizePattern}
    (h : concat_tail features pattern m s = .ok ps t) :
    ∃ ts, s = behind ts t ∧ ((ps = [] ∧ ts = []) ∨ Reads features n .factors ts ps) := by
  induction m generalizing s ps with
  | zero =>
    obtain ⟨rfl, rfl⟩ := ParseResult.pure_ok.mp h
    exact ⟨[], rfl, .inl ⟨rfl, rfl⟩⟩
  | succ m ih =>
    rw [concat_tail, ParseResult.bind_ok] at h
    obtain ⟨ends, u, hends, h⟩ := h
    rw [peek_ends_row_pattern_sequence, ParseResult.bind_ok] at hends
    obtain ⟨v, w, hget, hends⟩ := hends
    obtain ⟨rfl, rfl⟩ := ParseResult.get_ok.mp hget
    obtain ⟨rfl, rfl⟩ := ParseResult.pure_ok.mp hends
    by_cases hstop : ends_sequence s.tokens = true
    · rw [if_pos hstop] at h
      obtain ⟨rfl, rfl⟩ := ParseResult.pure_ok.mp h
      exact ⟨[], rfl, .inl ⟨rfl, rfl⟩⟩
    · rw [if_neg hstop, ParseResult.bind_ok] at h
      obtain ⟨head, v, hhead, h⟩ := h
      rw [ParseResult.bind_ok] at h
      obtain ⟨tail, w, htail, h⟩ := h
      obtain ⟨rfl, rfl⟩ := ParseResult.pure_ok.mp h
      obtain ⟨ts, hs, hts⟩ := parse_row_pattern_factor_reads hprimary s head v hhead
      obtain ⟨us, hv, ⟨rfl, rfl⟩ | hus⟩ := ih htail
      · rw [behind_nil] at hv
        rw [hv] at hs
        exact ⟨ts, hs, .inr (.last_factor hts)⟩
      · exact ⟨ts ++ us, by rw [hs, hv, behind_behind], .inr (.factor hts hus)⟩

theorem parse_row_pattern_concat_reads :
    ReadsAs features n .sequence (parse_row_pattern_concat features pattern) := by
  intro s p t h
  rw [parse_row_pattern_concat, ParseResult.bind_ok] at h
  obtain ⟨first, u, hfirst, h⟩ := h
  obtain ⟨ts, hs, hts⟩ := parse_row_pattern_factor_reads hprimary s first u hfirst
  rw [ParseResult.bind_ok] at h
  obtain ⟨ends, v, hends, h⟩ := h
  rw [peek_ends_row_pattern_sequence, ParseResult.bind_ok] at hends
  obtain ⟨w, x, hget, hends⟩ := hends
  obtain ⟨rfl, rfl⟩ := ParseResult.get_ok.mp hget
  obtain ⟨rfl, rfl⟩ := ParseResult.pure_ok.mp hends
  by_cases hstop : ends_sequence u.tokens = true
  · rw [if_pos hstop] at h
    obtain ⟨rfl, rfl⟩ := ParseResult.pure_ok.mp h
    exact ⟨ts, hs, .single hts⟩
  rw [if_neg hstop, ParseResult.bind_ok] at h
  obtain ⟨w, x, hget, h⟩ := h
  obtain ⟨rfl, rfl⟩ := ParseResult.get_ok.mp hget
  rw [ParseResult.bind_ok] at h
  obtain ⟨rest, v, hrest, h⟩ := h
  obtain ⟨rfl, rfl⟩ := ParseResult.pure_ok.mp h
  obtain ⟨us, hu, ⟨rfl, rfl⟩ | hus⟩ := concat_tail_reads hprimary hrest
  · -- a token is ahead, so that there is a round, which reads a factor
    exfalso
    cases htokens : u.tokens with
    | nil =>
      rw [htokens] at hstop
      exact hstop rfl
    | cons token tokens =>
      rw [htokens, List.length_cons, concat_tail, ParseResult.bind_ok] at hrest
      obtain ⟨ends, v, hends, hrest⟩ := hrest
      rw [peek_ends_row_pattern_sequence, ParseResult.bind_ok] at hends
      obtain ⟨w, x, hget, hends⟩ := hends
      obtain ⟨rfl, rfl⟩ := ParseResult.get_ok.mp hget
      obtain ⟨rfl, rfl⟩ := ParseResult.pure_ok.mp hends
      rw [if_neg hstop, ParseResult.bind_ok] at hrest
      obtain ⟨head, v, _, hrest⟩ := hrest
      rw [ParseResult.bind_ok] at hrest
      obtain ⟨tail, w, _, hrest⟩ := hrest
      cases (ParseResult.pure_ok.mp hrest).1
  · exact ⟨ts ++ us, by rw [hs, hu, behind_behind], .concat hts hus⟩

/-- The branches behind one, each with its bar. -/
theorem alternation_tail_reads {m : Nat} {s t : State} {ps : List MatchRecognizePattern}
    (h : alternation_tail features pattern m s = .ok ps t) :
    (ps = [] ∧ s = t) ∨
      ∃ ts, s = behind (.operator .Pipe :: ts) t ∧ Reads features n .sequences ts ps := by
  induction m generalizing s ps with
  | zero =>
    obtain ⟨rfl, rfl⟩ := ParseResult.pure_ok.mp h
    exact .inl ⟨rfl, rfl⟩
  | succ m ih =>
    rw [alternation_tail, ParseResult.bind_ok] at h
    obtain ⟨pipe, u, hpipe, h⟩ := h
    obtain ⟨rfl, hs⟩ | ⟨rfl, rfl, _⟩ := eat_cases hpipe
    · rw [if_pos rfl, ParseResult.bind_ok] at h
      obtain ⟨head, v, hhead, h⟩ := h
      rw [ParseResult.bind_ok] at h
      obtain ⟨tail, w, htail, h⟩ := h
      obtain ⟨rfl, rfl⟩ := ParseResult.pure_ok.mp h
      obtain ⟨ts, hu, hts⟩ := parse_row_pattern_concat_reads hprimary u head v hhead
      right
      obtain ⟨rfl, rfl⟩ | ⟨us, hv, hus⟩ := ih htail
      · exact ⟨ts, by rw [hs, hu, behind_behind]; rfl, .last_sequence hts⟩
      · refine ⟨ts ++ .operator .Pipe :: us, ?_, .sequence hts hus⟩
        rw [hs, hu, hv, behind_behind, behind_behind]
        simp
    · obtain ⟨rfl, rfl⟩ := ParseResult.pure_ok.mp h
      exact .inl ⟨rfl, rfl⟩

theorem parse_row_pattern_alternation_reads :
    ReadsAs features n .alternatives (parse_row_pattern_alternation features pattern) := by
  intro s p t h
  rw [parse_row_pattern_alternation, ParseResult.bind_ok] at h
  obtain ⟨first, u, hfirst, h⟩ := h
  obtain ⟨ts, hs, hts⟩ := parse_row_pattern_concat_reads hprimary s first u hfirst
  rw [ParseResult.bind_ok] at h
  obtain ⟨pipe, v, hpeek, h⟩ := h
  obtain ⟨hpipe, rfl⟩ := peek_nth_is_ok.mp hpeek
  by_cases hbar : pipe = true
  · rw [if_pos hbar, ParseResult.bind_ok] at h
    obtain ⟨w, x, hget, h⟩ := h
    obtain ⟨rfl, rfl⟩ := ParseResult.get_ok.mp hget
    rw [ParseResult.bind_ok] at h
    obtain ⟨rest, v, hrest, h⟩ := h
    obtain ⟨rfl, rfl⟩ := ParseResult.pure_ok.mp h
    obtain ⟨rfl, _⟩ | ⟨us, hu, hus⟩ := alternation_tail_reads hprimary hrest
    · -- the bar is ahead, so that there is a round, which reads a branch
      exfalso
      rw [hbar, beq_iff_eq] at hpipe
      have hu : u = behind [.operator .Pipe] { u with tokens := u.tokens.tail } := by
        apply behind_of_head
        rw [List.head?_eq_getElem?]
        exact hpipe
      have hlength : u.tokens.length = u.tokens.tail.length + 1 := by
        rw [hu]
        rfl
      rw [hlength, alternation_tail, ParseResult.bind_ok] at hrest
      obtain ⟨found, v, hfound, hrest⟩ := hrest
      rw [hu, eat_op, eat_behind] at hfound
      obtain ⟨rfl, rfl⟩ := EStateM.Result.ok.inj hfound
      rw [if_pos rfl, ParseResult.bind_ok] at hrest
      obtain ⟨head, v, _, hrest⟩ := hrest
      rw [ParseResult.bind_ok] at hrest
      obtain ⟨tail, w, _, hrest⟩ := hrest
      cases (ParseResult.pure_ok.mp hrest).1
    · exact ⟨ts ++ .operator .Pipe :: us, by rw [hs, hu, behind_behind], .alternation hts hus⟩
  · rw [if_neg hbar] at h
    obtain ⟨rfl, rfl⟩ := ParseResult.pure_ok.mp h
    exact ⟨ts, hs, .unbranched hts⟩

end

end

/-- A pattern that is read has the tokens that the grammar gives it, and no more levels than there
are. -/
theorem parse_row_pattern_reads {level : Nat} :
    ∀ {s p t}, parse_row_pattern features level s = .ok p t →
      ∃ n ts, level = n + 1 ∧ s = behind ts t ∧ Reads features n .alternatives ts [p] := by
  induction level with
  | zero =>
    intro s p t h
    exact (ParseResult.throw_ok.mp h).elim
  | succ level ih =>
    intro s p t h
    have hprimary : ReadsAs features level .primary
        (parse_row_pattern_primary features (parse_row_pattern features level)) := by
      apply parse_row_pattern_primary_reads
      · rintro m rfl s p t h
        obtain ⟨n, ts, hn, hs, hts⟩ := ih h
        obtain rfl : m = n := by omega
        exact ⟨ts, hs, hts⟩
      · rintro rfl s p t h
        exact ParseResult.throw_ok.mp h
    obtain ⟨ts, hs, hts⟩ := parse_row_pattern_alternation_reads hprimary s p t h
    exact ⟨level, ts, rfl, hs, hts⟩

end

end squonk.parser.row_pattern
