import Squonk.Dialect.Presets
import Squonk.Parser.Expr.Faithful
import Squonk.Render.Written
import Squonk.Tokenizer.Spelling

/-!
# Canonical text and its tokens

The scanner reads the text of a written expression back into the expression's tokens, but for
signs that fuse with the operator behind them where any run of operator characters is one
operator.
-/

open squonk.ast squonk.tokenizer squonk.dialect squonk.precedence squonk.parser.expr climbing

namespace squonk.render

variable {features : FeatureSet}

/-- What reading an operator run relies on. -/
structure Separated (features : FeatureSet) : Prop extends Delimited features where
  opening_char : features.operator_syntax.custom_operators = true →
    ∀ style ∈ features.identifier_quotes, is_operator_char features style.1 = false
  opening_paren : ∀ style ∈ features.identifier_quotes, style.1 ∉ ['(', ')']

theorem builtin_separated (dialect : BuiltinDialect) : Separated dialect.features := by
  cases dialect
  all_goals exact ⟨⟨by decide, by decide, by decide, by decide⟩, by decide, by decide⟩

/-! ## What stands behind an operand -/

/-- The text behind an operand: nothing, a closing parenthesis, or one blank. -/
inductive Behind : List Char → Prop
  | nil : Behind []
  | closing (rest : List Char) : Behind (')' :: rest)
  | blank {c : Char} (rest : List Char) (hblank : is_whitespace c = false)
      (htab : c ≠ Char.ofNat 11) : Behind (' ' :: c :: rest)

theorem Behind.ends {rest : List Char} (h : Behind rest) (t : Token) : Ends t rest := by
  cases h with
  | nil =>
    exact ⟨fun c hc => (nomatch hc), fun _ _ hc => (nomatch hc), fun _ _ close => rfl⟩
  | closing rest =>
    refine ⟨fun c hc => ?_, fun _ _ hc => (nomatch hc), fun _ _ close => rfl⟩
    rw [← Option.some.inj hc]
    decide
  | @blank c rest hblank htab =>
    refine ⟨fun d hd => ?_, fun _ _ hd => (nomatch hd), fun _ _ close => ?_⟩
    · rw [← Option.some.inj hd]
      decide
    · have hstop : (is_whitespace c || c == Char.ofNat 11) = false := by
        rw [hblank, Bool.false_or, beq_eq_false_iff_ne]
        exact htab
      have htake : (' ' :: c :: rest).takeWhile
          (fun c => is_whitespace c || c == Char.ofNat 11) = [' '] := by
        rw [List.takeWhile_cons_of_pos rfl, List.takeWhile_cons_of_neg (by simp [hstop])]
      unfold extends_string
      dsimp only
      rw [htake]
      rfl

theorem ends_blank {t : Token} (hnumber : ∀ text, t ≠ .number text)
    (hstring : ∀ text, t ≠ .string text) (rest : List Char) : Ends t (' ' :: rest) := by
  refine ⟨fun c hc => ?_, fun text ht => absurd ht (hnumber text),
    fun text ht => absurd ht (hstring text)⟩
  rw [← Option.some.inj hc]
  decide

/-! ## Words -/

/-- A text that is a token starts with no blank. -/
theorem spelled_start {w : List Char} {t : Token} (hquoted : ∀ text, t ≠ .quoted_ident text)
    (h : Spelled features w t) :
    ∃ c cs, w = c :: cs ∧ is_whitespace c = false ∧ c ≠ Char.ofNat 11 := by
  obtain ⟨c, cs, rfl, htrivia, hscan⟩ := h
  refine ⟨c, cs, rfl, (skip_trivia_none_iff.mp htrivia).1, ?_⟩
  rintro rfl
  unfold scan_token at hscan
  rw [not_prefixed_of_not_start rfl] at hscan
  cases hident : opening_identifier_quote features (Char.ofNat 11) with
  | none =>
    rw [hident] at hscan
    cases hscan
  | some close =>
    rw [hident] at hscan
    have hscan' : scan_quoted_ident features (Char.ofNat 11) close cs = some (t, []) := hscan
    unfold scan_quoted_ident at hscan'
    split at hscan'
    · cases hscan'
    split at hscan'
    · cases hscan'
    · exact hquoted _ (Prod.mk.inj (Option.some.inj hscan')).1.symm

theorem spelling_plain {t : Token} (h : Spelled features (spelling t) t) :
    (∀ text, t ≠ .number text) ∧ (∀ text, t ≠ .string text) ∧ ∀ text, t ≠ .quoted_ident text := by
  obtain ⟨c, cs, hw, -, -⟩ := h
  refine ⟨?_, ?_, ?_⟩
  all_goals
    rintro text rfl
    cases hw

theorem tokenize_words (hseparated : Separated features) {ts : List Token}
    (hspelled : ∀ t ∈ ts, Spelled features (spelling t) t) (rest : List Char) :
    tokenize features (ts.flatMap (fun t => spelling t ++ [' ']) ++ rest) =
      (tokenize features rest).map (ts ++ ·) := by
  induction ts with
  | nil => simp
  | cons t ts ih =>
    have ht := hspelled t List.mem_cons_self
    obtain ⟨hnumber, hstring, -⟩ := spelling_plain ht
    rw [List.flatMap_cons, List.append_assoc, List.append_assoc, List.cons_append,
      List.nil_append, tokenize_spelled hseparated.toDelimited ht (ends_blank hnumber hstring _),
      tokenize_blank, ih fun u hu => hspelled u (List.mem_cons_of_mem t hu), Option.map_map]
    rfl

theorem behind_infix {o : Infix} (hspelled : ∀ t ∈ o.tokens, Spelled features (spelling t) t)
    (rest : List Char) : Behind (' ' :: ( infix_text o ++ rest)) := by
  unfold infix_text
  cases htokens : o.tokens with
  | nil => exact absurd htokens (infix_tokens_ne_nil o)
  | cons t ts =>
    have ht := hspelled t (by rw [htokens]; exact List.mem_cons_self)
    obtain ⟨c, cs, hw, hblank, htab⟩ := spelled_start (spelling_plain ht).2.2 ht
    rw [List.flatMap_cons, hw, List.cons_append, List.cons_append, List.cons_append]
    exact .blank _ hblank htab

/-! ## Signs -/

/-- Every operator that some dialect has a token for. -/
def symbol_operators : List Operator :=
  [.LtEqGt, .MinusGtGt, .HashGtGt, .LtEq, .GtEq, .NotEq .AngleBracket, .NotEq .Bang, .ShiftLeft,
   .ShiftRight, .Concat, .AmpAmp, .QuestionPipe, .QuestionAmp, .AtQuestion, .AtAt, .HashGt,
   .HashMinus, .AtGt, .LtAt, .MinusGt, .Arrow, .PipeArrow, .EqEq, .SlashSlash, .CaretAt, .Plus,
   .Minus, .Star, .Slash, .Percent, .Caret, .Lt, .Gt, .Eq, .Tilde, .Bang, .Amp, .Pipe, .Hash,
   .Question]

theorem mem_symbol_operators {op : Operator} (h : op ∈ known_operators features) :
    op ∈ symbol_operators := by
  have hgated : ∀ {on : Bool} {ops : List Operator}, op ∈ (bif on then ops else []) → op ∈ ops := by
    intro on ops h
    cases on
    · cases h
    · exact h
  have hall : ∀ ops : List Operator, op ∈ ops → ops ⊆ symbol_operators → op ∈ symbol_operators :=
    fun ops hop hops => hops hop
  unfold known_operators at h
  simp only [List.mem_append] at h
  rcases h with ((((((((((((((h | h) | h) | h) | h) | h) | h) | h) | h) | h) | h) | h) | h) | h) | h)
  all_goals first
    | exact hall _ (hgated h) (by decide)
    | exact hall _ h (by decide)

/-- The signs, with their operators. -/
def signs : List (Char × Operator) := [('-', .Minus), ('+', .Plus), ('~', .Tilde)]

theorem mem_known_of_sign {c : Char} {op : Operator} (h : (c, op) ∈ signs) :
    op ∈ known_operators features := by
  simp only [signs, List.mem_cons, Prod.mk.injEq, List.not_mem_nil, or_false] at h
  rcases h with ⟨-, rfl⟩ | ⟨-, rfl⟩ | ⟨-, rfl⟩
  all_goals simp [known_operators]

theorem opening_quote_none {c : Char} (h : ∀ style ∈ features.identifier_quotes, style.1 ≠ c) :
    opening_identifier_quote features c = none := by
  unfold opening_identifier_quote
  rw [Option.map_eq_none_iff, List.find?_eq_none]
  intro style hstyle hstart
  exact h style hstyle (beq_iff_eq.mp hstart)

/-- Whether no literal, name or number starts with the character. -/
def is_symbol_start (c : Char) : Bool :=
  !(c == single_quote || c == '"' || is_identifier_start c || c.isDigit || c == '.')

theorem scan_token_symbol {c : Char} (hc : is_symbol_start c = true)
    (hnone : opening_identifier_quote features c = none) (cs : List Char) :
    scan_token features c cs =
      if opens_sigil features c cs then none
      else if opens_operator features c cs then scan_operator features c cs
      else scan_punctuation features c cs := by
  simp only [is_symbol_start, Bool.not_eq_true', Bool.or_eq_false_iff] at hc
  obtain ⟨⟨⟨⟨hquote, hdouble⟩, hstart⟩, hdigit⟩, hdot⟩ := hc
  unfold scan_token
  rw [not_prefixed_of_not_start hstart, hnone, hquote, hdouble, hstart, hdigit, hdot]
  rfl

/-- A character of the operator class starts an operator. -/
theorem scan_token_operator (hdelimited : Delimited features) {c : Char}
    (hc : is_operator c = true) (cs : List Char) :
    scan_token features c cs = scan_operator features c cs := by
  have hnone : opening_identifier_quote features c = none := by
    refine opening_quote_none fun style hstyle hstart => ?_
    have hplain := hdelimited.opening style hstyle
    rw [hstart, hc] at hplain
    cases hplain
  simp only [is_operator, List.contains_eq_mem, decide_eq_true_eq] at hc
  change c ∈ ['+', '-', '*', '/', '%', '=', '<', '>', '!', '|', '&', '^', '~'] at hc
  simp only [List.mem_cons, List.not_mem_nil, or_false] at hc
  rcases hc with rfl | rfl | rfl | rfl | rfl | rfl | rfl | rfl | rfl | rfl | rfl | rfl | rfl
  all_goals exact scan_token_symbol rfl hnone cs

theorem scan_token_sign (hdelimited : Delimited features) {c : Char} {op : Operator}
    (h : (c, op) ∈ signs) (cs : List Char) :
    scan_token features c cs = scan_operator features c cs := by
  apply scan_token_operator hdelimited
  simp only [signs, List.mem_cons, Prod.mk.injEq, List.not_mem_nil, or_false] at h
  rcases h with ⟨rfl, -⟩ | ⟨rfl, -⟩ | ⟨rfl, -⟩ <;> rfl

theorem scan_operator_token {c : Char} {cs rest : List Char} {t : Token}
    (h : scan_operator features c cs = some (t, rest)) : ∃ op, t = .operator op := by
  obtain ⟨op, -, ht, -⟩ := scan_operator_self h
  exact ⟨op, ht⟩

/-- Only an operator starts with an operator character. -/
theorem lead_of_scan (hseparated : Separated features) {c : Char} {cs rest : List Char} {t : Token}
    (h : scan_token features c cs = some (t, rest)) (hop : ∀ op, t ≠ .operator op) :
    is_operator c = false ∧ (features.operator_syntax.custom_operators = true →
      is_operator_char features c = false) := by
  have hclass : is_operator c = false := by
    by_contra hc
    rw [scan_token_operator hseparated.toDelimited (Bool.eq_true_of_not_eq_false hc)] at h
    obtain ⟨op, ht⟩ := scan_operator_token h
    exact hop op ht
  refine ⟨hclass, fun hcustom => ?_⟩
  by_contra hc
  rw [Bool.not_eq_false] at hc
  have hnone : opening_identifier_quote features c = none := by
    refine opening_quote_none fun style hstyle hstart => ?_
    have hplain := hseparated.opening_char hcustom style hstyle
    rw [hstart, hc] at hplain
    cases hplain
  have hrare : c = '#' ∨ c = '?' ∨ c = '@' ∨ c = Char.ofNat 96 := by
    unfold is_operator_char at hc
    split at hc
    · rename_i hhash
      exact Or.inl (beq_iff_eq.mp hhash)
    split at hc
    · rename_i hquestion
      exact Or.inr (Or.inl (beq_iff_eq.mp hquestion))
    · simp only [is_operator, List.contains_eq_mem, decide_eq_true_eq, decide_eq_false_iff_not]
        at hc hclass
      change c ∈ ['~', '!', '@', '^', '&', '|', Char.ofNat 96, '+', '-', '*', '/', '%', '<', '>',
        '='] at hc
      change c ∉ ['+', '-', '*', '/', '%', '=', '<', '>', '!', '|', '&', '^', '~'] at hclass
      simp only [List.mem_cons, List.not_mem_nil, or_false] at hc hclass
      tauto
  have hsymbol : is_symbol_start c = true := by
    rcases hrare with rfl | rfl | rfl | rfl <;> rfl
  rw [scan_token_symbol hsymbol hnone] at h
  split at h
  · cases h
  split at h
  · obtain ⟨op, ht⟩ := scan_operator_token h
    exact hop op ht
  · rename_i hplain
    rcases hrare with rfl | rfl | rfl | rfl
    · cases h
    · cases h
    · simp [opens_operator, hcustom] at hplain
    · cases h

theorem skip_trivia_sign {c : Char} {op : Operator} (h : (c, op) ∈ signs) {cs : List Char}
    (hminus : c = '-' → cs.head? ≠ some '-') : skip_trivia features c cs = some none := by
  simp only [signs, List.mem_cons, Prod.mk.injEq, List.not_mem_nil, or_false] at h
  rcases h with ⟨rfl, -⟩ | ⟨rfl, -⟩ | ⟨rfl, -⟩
  · have hhead : (cs.head? == some '-') = false := beq_eq_false_iff_ne.mpr (hminus rfl)
    exact skip_trivia_none_iff.mpr ⟨rfl, by rw [hhead]; rfl, rfl⟩
  · exact skip_trivia_none_iff.mpr ⟨rfl, rfl, rfl⟩
  · exact skip_trivia_none_iff.mpr ⟨rfl, rfl, rfl⟩

/-- An operator of one character stands alone in front of what neither fuses with it nor makes it
    a longer operator. -/
theorem scan_operator_alone {c : Char} {op : Operator} (hknown : op ∈ known_operators features)
    (htext : op.text = [c]) {cs : List Char}
    (hlonger : ∀ known ∈ symbol_operators, known.text.head? = some c →
      known = op ∨ ∃ d, known.text.tail.head? = some d ∧ cs.head? ≠ some d)
    (hrun : features.operator_syntax.custom_operators = true →
      ∀ d, cs.head? = some d → is_operator_char features d = false) :
    scan_operator features c cs = some (.operator op, cs) := by
  unfold scan_operator
  by_cases hcustom : features.operator_syntax.custom_operators = true
  · have hstop : operator_run features cs = [] := by
      cases cs with
      | nil => rfl
      | cons d cs => rw [operator_run, hrun hcustom d rfl, Bool.false_and, if_neg Bool.false_ne_true]
    have hself : custom_operator_run features c cs = [c] := by
      unfold custom_operator_run
      rw [hstop]
      exact ite_self _
    have htoken : known_operator_token features [c] = some op := by
      unfold known_operator_token
      cases hfind : (known_operators features).find? fun op => op.text == [c] with
      | none =>
        rw [List.find?_eq_none] at hfind
        exact absurd (beq_iff_eq.mpr htext) (hfind op hknown)
      | some found =>
        have hmem := List.mem_of_find?_eq_some hfind
        have hfound : found.text = [c] := by simpa using List.find?_some hfind
        obtain rfl | ⟨d, hhead, _⟩ :=
          hlonger found (mem_symbol_operators hmem) (by rw [hfound]; rfl)
        · rfl
        · rw [hfound] at hhead
          cases hhead
    rw [if_pos hcustom, scan_custom_operator]
    simp only [hself, htoken]
    rfl
  · rw [if_neg hcustom]
    cases hfind : (known_operators features).find? fun op => op.text.isPrefixOf (c :: cs) with
    | none =>
      rw [List.find?_eq_none] at hfind
      have hself : op.text.isPrefixOf (c :: cs) = true := by
        rw [htext, List.isPrefixOf_iff_prefix]
        exact ⟨cs, rfl⟩
      exact absurd hself (hfind op hknown)
    | some found =>
      have hmem := List.mem_of_find?_eq_some hfind
      have hfound : found.text.isPrefixOf (c :: cs) = true :=
        List.find?_some (p := fun op : Operator => op.text.isPrefixOf (c :: cs)) hfind
      obtain ⟨behind, hsplit⟩ := List.isPrefixOf_iff_prefix.mp hfound
      have hne := (known_text hmem).1
      cases hchars : found.text with
      | nil => exact absurd (by simp [hchars]) hne
      | cons d tail =>
        rw [hchars, List.cons_append] at hsplit
        obtain ⟨rfl, htail⟩ := List.cons.inj hsplit
        obtain rfl | ⟨e, hhead, hother⟩ :=
          hlonger found (mem_symbol_operators hmem) (by rw [hchars]; rfl)
        · rw [Option.map_some, htext]
          rfl
        · refine absurd ?_ hother
          rw [hchars, List.tail_cons] at hhead
          rw [← htail, List.head?_append, hhead]
          rfl

/-- A sign is an operator of its own in front of what neither fuses with it nor makes it an
    arrow. -/
theorem scan_sign {c : Char} {op : Operator} (h : (c, op) ∈ signs) {cs : List Char}
    (harrow : cs.head? ≠ some '>')
    (hrun : features.operator_syntax.custom_operators = true →
      ∀ d, cs.head? = some d → is_operator_char features d = false) :
    scan_operator features c cs = some (.operator op, cs) := by
  have hall : ∀ sign ∈ signs, sign.2.text = [sign.1] ∧ ∀ known ∈ symbol_operators,
      known.text.head? = some sign.1 →
        known = sign.2 ∨ known.text.tail.head? = some '>' := by decide
  obtain ⟨htext, hlonger⟩ := hall (c, op) h
  apply scan_operator_alone (mem_known_of_sign h) htext _ hrun
  intro known hknown hhead
  obtain rfl | harrow' := hlonger known hknown hhead
  · exact .inl rfl
  · exact .inr ⟨'>', harrow', harrow⟩

/-- Where any run is an operator, two characters that no known operator starts with are one that
    is not known. -/
theorem scan_custom_run (hcustom : features.operator_syntax.custom_operators = true) {c d : Char}
    {cs : List Char} (hd : is_operator_char features d = true)
    (hcomment : starts_comment d cs = false)
    (hallows : operator_char_allows_trailing_sign c = true ∨
      operator_char_allows_trailing_sign d = true)
    (hunknown : ∀ known ∈ symbol_operators, known.text.head? = some c →
      known.text.tail.head? ≠ some d) (harrow : c ≠ '=') :
    ∃ w rest, scan_operator features c (d :: cs) = some (.operator (.Custom w), rest) := by
  have hrun : operator_run features (d :: cs) = d :: operator_run features cs := by
    rw [operator_run, hd, hcomment]
    rfl
  have hself : custom_operator_run features c (d :: cs) = c :: d :: operator_run features cs := by
    have hany : (c :: d :: operator_run features cs).any operator_char_allows_trailing_sign =
        true := by
      rw [List.any_cons, List.any_cons]
      obtain h | h := hallows
      · rw [h, Bool.true_or]
      · rw [h, Bool.true_or, Bool.or_true]
    unfold custom_operator_run
    dsimp only
    rw [hrun, if_pos hany]
  have htoken : known_operator_token features (c :: d :: operator_run features cs) = none := by
    unfold known_operator_token
    rw [List.find?_eq_none]
    intro known hknown htext
    rw [beq_iff_eq] at htext
    exact hunknown known (mem_symbol_operators hknown) (by rw [htext]; rfl) (by rw [htext]; rfl)
  have hequals : (c :: d :: operator_run features cs == ['=', '>']) = false := by
    rw [beq_eq_false_iff_ne]
    intro heq
    exact harrow (List.cons.inj heq).1
  refine ⟨c :: d :: operator_run features cs,
    (d :: cs).drop ((c :: d :: operator_run features cs).length - 1), ?_⟩
  unfold scan_operator scan_custom_operator
  rw [if_pos hcustom]
  simp only [hself, htoken, hequals, Bool.false_eq_true, if_false]

/-- Where any run is an operator, two signs one of which is `~` are one. -/
theorem scan_fused (hcustom : features.operator_syntax.custom_operators = true) {c d : Char}
    {op op' : Operator} (h : (c, op) ∈ signs) (h' : (d, op') ∈ signs) (htilde : c = '~' ∨ d = '~')
    {cs : List Char} (hminus : d = '-' → cs.head? ≠ some '-') :
    ∃ w rest, scan_operator features c (d :: cs) = some (.operator (.Custom w), rest) := by
  have hd : is_operator_char features d = true ∧ starts_comment d cs = false := by
    simp only [signs, List.mem_cons, Prod.mk.injEq, List.not_mem_nil, or_false] at h'
    rcases h' with ⟨rfl, -⟩ | ⟨rfl, -⟩ | ⟨rfl, -⟩
    · have hhead : (cs.head? == some '-') = false := beq_eq_false_iff_ne.mpr (hminus rfl)
      exact ⟨rfl, by rw [starts_comment, hhead]; rfl⟩
    · exact ⟨rfl, rfl⟩
    · exact ⟨rfl, rfl⟩
  have hall : ∀ sign ∈ signs, sign.1 ≠ '=' ∧ ∀ next ∈ signs, ∀ known ∈ symbol_operators,
      known.text.head? = some sign.1 → known.text.tail.head? ≠ some next.1 := by decide
  obtain ⟨harrow, hunknown⟩ := hall (c, op) h
  apply scan_custom_run hcustom hd.1 hd.2 _ (hunknown (d, op') h') harrow
  obtain rfl | rfl := htilde
  · exact .inl rfl
  · exact .inr rfl

/-! ## Text -/

/-- Every piece of the expression is spelled, and no sign stands behind a sign. -/
def Spelt (features : FeatureSet) : Written → Prop
  | .atom a => Spelled features (atom a) a.token
  | .group c => Spelt features c
  | .pre p c =>
    (∃ op, p = .unary op ∧ op ≠ .Prior ∧ (is_sign op = true →
      leading c ≠ some (.operator .Minus) ∧ leading c ≠ some (.operator .Plus))) ∧ Spelt features c
  | .inf l o r =>
    Spelt features l ∧ (∀ t ∈ o.tokens, Spelled features (spelling t) t) ∧ Spelt features r
  | _ => False

/-- Where any run of operator characters is one operator, no sign stands in front of another. -/
def Unfused (features : FeatureSet) : Written → Prop
  | .group c => Unfused features c
  | .pre p c =>
    (features.operator_syntax.custom_operators = true → ∀ op op', p.token = .operator op →
      leading c ≠ some (.operator op')) ∧ Unfused features c
  | .inf l _ r => Unfused features l ∧ Unfused features r
  | _ => True

/-- How the text of an expression starts. -/
inductive Starts (features : FeatureSet) (c : Written) : Prop
  | plain {t : Token} {d : Char} {cs : List Char} (hleading : leading c = some t)
      (hop : ∀ op, t ≠ .operator op) (htext : text c = d :: cs) (hclass : is_operator d = false)
      (hchar : features.operator_syntax.custom_operators = true →
        is_operator_char features d = false)
  | sign {d e : Char} {op : Operator} {cs : List Char} (hsign : (d, op) ∈ signs)
      (hleading : leading c = some (.operator op)) (htext : text c = d :: e :: cs)
      (hminus : d = '-' → e ≠ '-')

/-- A prefix operator without a blank behind it is a sign. -/
theorem sign_of_unary {op : UnaryOperator} (hnot : op ≠ .Not) (hprior : op ≠ .Prior) :
    ∃ d sign, (d, sign) ∈ signs ∧ prefix_text (.unary op) = [d] ∧
      (Prefix.unary op).token = .operator sign ∧
      (is_sign op = true ∧ (sign = .Minus ∨ sign = .Plus) ∨ d = '~') := by
  cases op with
  | Not => exact absurd rfl hnot
  | Prior => exact absurd rfl hprior
  | Minus => exact ⟨'-', .Minus, by decide, rfl, rfl, Or.inl ⟨rfl, Or.inl rfl⟩⟩
  | Plus => exact ⟨'+', .Plus, by decide, rfl, rfl, Or.inl ⟨rfl, Or.inr rfl⟩⟩
  | BitwiseNot => exact ⟨'~', .Tilde, by decide, rfl, rfl, Or.inr rfl⟩

theorem starts_of_spelt (hseparated : Separated features) {c : Written}
    (h : Spelt features c) : Starts features c := by
  have hspelled : ∀ {w : List Char} {t : Token}, Spelled features w t → (∀ op, t ≠ .operator op) →
      ∃ d cs, w = d :: cs ∧ is_operator d = false ∧
        (features.operator_syntax.custom_operators = true →
          is_operator_char features d = false) := by
    rintro w t ⟨d, cs, rfl, -, hscan⟩ hop
    obtain ⟨hclass, hchar⟩ := lead_of_scan hseparated hscan hop
    exact ⟨d, cs, rfl, hclass, hchar⟩
  induction c with
  | atom a =>
    have hop : ∀ op, a.token ≠ .operator op := by
      intro op
      rcases a with (_ | _ | _) | (_ | (_ | _) | _ | _) <;> exact Token.noConfusion
    obtain ⟨d, cs, htext, hclass, hchar⟩ := hspelled h hop
    exact .plain rfl hop htext hclass hchar
  | group c _ =>
    exact .plain rfl (fun op => Token.noConfusion) rfl rfl fun _ => by simp [is_operator_char]
  | pre p c ih =>
    obtain ⟨⟨op, rfl, hprior, hsigns⟩, hc⟩ := h
    by_cases hnot : op = .Not
    · subst hnot
      obtain ⟨d, cs, htext, hclass, hchar⟩ := hspelled
        (spelled_capitals hseparated.toDelimited .Not) (fun op => Token.noConfusion)
      have hword : text (.pre (.unary .Not) c) = d :: (cs ++ ' ' :: text c) := by
        change Keyword.capitals .Not ++ [' '] ++ text c = _
        rw [htext, List.append_assoc]
        rfl
      exact .plain rfl (fun op => Token.noConfusion) hword hclass hchar
    · obtain ⟨d, sign, hsign, hprefix, htoken, hkind⟩ := sign_of_unary hnot hprior
      have hlead : leading (.pre (.unary op) c) = some (.operator sign) := by
        rw [← htoken]
        rfl
      cases ih hc with
      | @plain t e cs hleading hop htext hclass hchar =>
        refine .sign hsign hlead (by rw [text, hprefix, htext]; rfl) ?_
        rintro - rfl
        cases hclass
      | @sign e e' op' cs hsign' hleading htext hminus =>
        refine .sign hsign hlead (by rw [text, hprefix, htext]; rfl) ?_
        rintro rfl rfl
        rcases hkind with ⟨hissign, -⟩ | htilde
        · have hop : op' = .Minus := by simpa [signs] using hsign'
          rw [hop] at hleading
          exact (hsigns hissign).1 hleading
        · cases htilde
  | inf l o r ihl _ =>
    cases ihl h.1 with
    | @plain t d cs hleading hop htext hclass hchar =>
      refine .plain ?_ hop (by rw [text, htext]; rfl) hclass hchar
      rw [leading, Cst.tokens, List.head?_append]
      exact congrArg (Option.or · _) hleading
    | @sign d e op cs hsign hleading htext hminus =>
      refine .sign hsign ?_ (by rw [text, htext]; rfl) hminus
      rw [leading, Cst.tokens, List.head?_append]
      exact congrArg (Option.or · _) hleading
  | mix => exact absurd h id
  | post => exact absurd h id

theorem tokenize_paren (hseparated : Separated features) (rest : List Char) :
    tokenize features ('(' :: rest) = (tokenize features rest).map (.lparen :: ·) ∧
      tokenize features (')' :: rest) = (tokenize features rest).map (.rparen :: ·) := by
  have hnone : ∀ c ∈ ['(', ')'], opening_identifier_quote features c = none := by
    intro c hc
    refine opening_quote_none fun style hstyle hstart => ?_
    rw [← hstart] at hc
    exact hseparated.opening_paren style hstyle hc
  constructor
  · apply tokenize_of_scan (skip_trivia_none_iff.mpr ⟨rfl, rfl, rfl⟩)
    rw [scan_token_symbol rfl (hnone '(' (by decide))]
    rfl
  · apply tokenize_of_scan (skip_trivia_none_iff.mpr ⟨rfl, rfl, rfl⟩)
    rw [scan_token_symbol rfl (hnone ')' (by decide))]
    rfl

theorem tokenize_not (hseparated : Separated features) (c : Written) (rest : List Char) :
    tokenize features (text (.pre (.unary .Not) c) ++ rest) =
      (tokenize features (text c ++ rest)).map (.keyword .Not :: ·) := by
  have hspelled : ∀ t ∈ [Token.keyword .Not], Spelled features (spelling t) t := by
    intro t ht
    rw [List.mem_singleton.mp ht]
    exact spelled_capitals hseparated.toDelimited .Not
  have htext : text (.pre (.unary .Not) c) ++ rest =
      [Token.keyword .Not].flatMap (fun t => spelling t ++ [' ']) ++ (text c ++ rest) := by
    rw [text, List.append_assoc]
    rfl
  rw [htext, tokenize_words hseparated hspelled]
  rfl

/-- A sign in front of an operand that starts with none is a token of its own. -/
theorem tokenize_sign (hseparated : Separated features) {d : Char} {sign : Operator}
    (hsign : (d, sign) ∈ signs) {c : Written} (hspelt : Spelt features c)
    (hminus : d = '-' → leading c ≠ some (.operator .Minus))
    (hfree : features.operator_syntax.custom_operators = true → ∀ op,
      leading c ≠ some (.operator op)) (rest : List Char) :
    tokenize features (d :: (text c ++ rest)) =
      (tokenize features (text c ++ rest)).map (.operator sign :: ·) := by
  have hfront : ∃ e cs, text c = e :: cs ∧ e ≠ '>' ∧ (d = '-' → e ≠ '-') ∧
      (features.operator_syntax.custom_operators = true → is_operator_char features e = false) := by
    cases starts_of_spelt hseparated hspelt with
    | @plain t e cs hleading hop htext hclass hchar =>
      refine ⟨e, cs, htext, ?_, ?_, hchar⟩
      · rintro rfl
        cases hclass
      · rintro - rfl
        cases hclass
    | @sign e e' op cs hsign' hleading htext _ =>
      refine ⟨e, e' :: cs, htext, ?_, ?_, fun hcustom => absurd hleading (hfree hcustom op)⟩
      · rintro rfl
        simp [signs] at hsign'
      · rintro hd rfl
        have hop : op = .Minus := by simpa [signs] using hsign'
        rw [hop] at hleading
        exact hminus hd hleading
  obtain ⟨e, cs, htext, harrow, hminus', hchar⟩ := hfront
  rw [htext, List.cons_append]
  apply tokenize_of_scan
  · apply skip_trivia_sign hsign
    intro hd hhead
    exact hminus' hd (Option.some.inj hhead)
  · rw [scan_token_sign hseparated.toDelimited hsign]
    apply scan_sign hsign
    · exact fun hhead => harrow (Option.some.inj hhead)
    · intro hcustom f hhead
      rw [← Option.some.inj hhead]
      exact hchar hcustom

/-- Text without fused signs is read back into its tokens. -/
theorem tokenize_text (hseparated : Separated features) {c : Written} (hspelt : Spelt features c)
    (hunfused : Unfused features c) {rest : List Char} (hbehind : Behind rest) :
    tokenize features (text c ++ rest) =
      (tokenize features rest).map (c.tokens lexicon ++ ·) := by
  induction c generalizing rest with
  | atom a => exact tokenize_spelled hseparated.toDelimited hspelt (hbehind.ends _)
  | group c ih =>
    rw [text, List.cons_append, List.append_assoc, (tokenize_paren hseparated _).1,
      List.singleton_append, ih hspelt hunfused (.closing rest), (tokenize_paren hseparated _).2,
      Option.map_map, Option.map_map]
    congr 1
    funext ts
    simp [Cst.tokens, lexicon]
  | pre p c ih =>
    obtain ⟨⟨op, rfl, hprior, hsigns⟩, hc⟩ := hspelt
    have htokens : ∀ ts, (Cst.pre (Prefix.unary op) c : Written).tokens lexicon ++ ts =
        (Prefix.unary op).token :: (c.tokens lexicon ++ ts) := fun ts => rfl
    simp only [htokens]
    by_cases hnot : op = .Not
    · subst hnot
      rw [tokenize_not hseparated, ih hc hunfused.2 hbehind, Option.map_map]
      rfl
    · obtain ⟨d, sign, hsign, hprefix, htoken, hkind⟩ := sign_of_unary hnot hprior
      have hminus : d = '-' → leading c ≠ some (.operator .Minus) := by
        rintro rfl
        rcases hkind with ⟨hissign, -⟩ | htilde
        · exact (hsigns hissign).1
        · cases htilde
      have hfree : features.operator_syntax.custom_operators = true → ∀ op',
          leading c ≠ some (.operator op') := fun hcustom op' => hunfused.1 hcustom sign op' htoken
      rw [text, hprefix, List.append_assoc, List.singleton_append,
        tokenize_sign hseparated hsign hc hminus hfree, ih hc hunfused.2 hbehind, Option.map_map,
        htoken]
      rfl
  | inf l o r ihl ihr =>
    obtain ⟨hl, ho, hr⟩ := hspelt
    rw [text, List.append_assoc, List.cons_append, List.append_assoc,
      ihl hl hunfused.1 ( behind_infix ho _), tokenize_blank, infix_text,
      tokenize_words hseparated ho, ihr hr hunfused.2 hbehind, Option.map_map, Option.map_map]
    congr 1
    funext ts
    simp [Cst.tokens, lexicon]
  | mix => exact absurd hspelt id
  | post => exact absurd hspelt id

/-- Where signs fuse, the scanner reads an operator that no tree of operators has. -/
theorem tokenize_fused (hseparated : Separated features) {c : Written} (hspelt : Spelt features c)
    (hfused : ¬ Unfused features c) {rest : List Char} (hbehind : Behind rest) {ts : List Token}
    (h : tokenize features (text c ++ rest) = some ts) : ∃ w, .operator (.Custom w) ∈ ts := by
  induction c generalizing rest ts with
  | atom a => exact absurd trivial hfused
  | group c ih =>
    rw [text, List.cons_append, List.append_assoc, (tokenize_paren hseparated _).1] at h
    obtain ⟨ts', hts', rfl⟩ := Option.map_eq_some_iff.mp h
    obtain ⟨w, hw⟩ := ih hspelt hfused (.closing rest) hts'
    exact ⟨w, List.mem_cons_of_mem _ hw⟩
  | pre p c ih =>
    obtain ⟨⟨op, rfl, hprior, hsigns⟩, hc⟩ := hspelt
    by_cases hnot : op = .Not
    · subst hnot
      rw [tokenize_not hseparated] at h
      obtain ⟨ts', hts', rfl⟩ := Option.map_eq_some_iff.mp h
      have hinner : ¬ Unfused features c :=
        fun hunfused => hfused ⟨fun _ _ _ htoken => (by cases htoken), hunfused⟩
      obtain ⟨w, hw⟩ := ih hc hinner hbehind hts'
      exact ⟨w, List.mem_cons_of_mem _ hw⟩
    obtain ⟨d, sign, hsign, hprefix, htoken, hkind⟩ := sign_of_unary hnot hprior
    have hminus : d = '-' → leading c ≠ some (.operator .Minus) := by
      rintro rfl
      rcases hkind with ⟨hissign, -⟩ | htilde
      · exact (hsigns hissign).1
      · cases htilde
    rw [text, hprefix, List.append_assoc, List.singleton_append] at h
    by_cases hfree : features.operator_syntax.custom_operators = true → ∀ op',
        leading c ≠ some (.operator op')
    · rw [tokenize_sign hseparated hsign hc hminus hfree] at h
      obtain ⟨ts', hts', rfl⟩ := Option.map_eq_some_iff.mp h
      have hinner : ¬ Unfused features c :=
        fun hunfused => hfused ⟨fun hcustom _ op' _ => hfree hcustom op', hunfused⟩
      obtain ⟨w, hw⟩ := ih hc hinner hbehind hts'
      exact ⟨w, List.mem_cons_of_mem _ hw⟩
    · simp only [Classical.not_imp, not_forall, not_not] at hfree
      obtain ⟨hcustom, op', hop'⟩ := hfree
      cases starts_of_spelt hseparated hc with
      | plain hleading hop =>
        rw [hop'] at hleading
        exact absurd (Option.some.inj hleading).symm (hop op')
      | @sign d' e sign' cs hsign' hleading htext hminus' =>
        have htilde : d = '~' ∨ d' = '~' := by
          rcases hkind with ⟨hissign, -⟩ | htilde
          · obtain ⟨hnotMinus, hnotPlus⟩ := hsigns hissign
            rw [hleading] at hnotMinus hnotPlus
            simp only [signs, List.mem_cons, Prod.mk.injEq, List.not_mem_nil, or_false] at hsign'
            rcases hsign' with ⟨-, rfl⟩ | ⟨-, rfl⟩ | ⟨rfl, -⟩
            · exact absurd rfl hnotMinus
            · exact absurd rfl hnotPlus
            · exact Or.inr rfl
          · exact Or.inl htilde
        have hfront : d = '-' → d' ≠ '-' := by
          rintro hd rfl
          have hop : sign' = .Minus := by simpa [signs] using hsign'
          rw [hop] at hleading
          exact hminus hd hleading
        rw [htext] at h
        have hnext : d' = '-' → (e :: (cs ++ rest)).head? ≠ some '-' :=
          fun hd hhead => hminus' hd (Option.some.inj hhead)
        obtain ⟨w, behind, hscan⟩ := scan_fused hcustom hsign hsign' htilde hnext
        rw [← scan_token_sign hseparated.toDelimited hsign] at hscan
        have hskip : skip_trivia features d (d' :: e :: (cs ++ rest)) = some none :=
          skip_trivia_sign hsign fun hd hhead => hfront hd (Option.some.inj hhead)
        rw [List.cons_append, List.cons_append, tokenize_of_scan hskip hscan] at h
        obtain ⟨ts', -, rfl⟩ := Option.map_eq_some_iff.mp h
        exact ⟨w, List.mem_cons_self⟩
  | inf l o r ihl ihr =>
    obtain ⟨hl, ho, hr⟩ := hspelt
    rw [text, List.append_assoc, List.cons_append, List.append_assoc] at h
    by_cases hunfused : Unfused features l
    · rw [tokenize_text hseparated hl hunfused ( behind_infix ho _), tokenize_blank, infix_text,
        tokenize_words hseparated ho] at h
      obtain ⟨ts', hts', rfl⟩ := Option.map_eq_some_iff.mp h
      obtain ⟨ts'', hts'', rfl⟩ := Option.map_eq_some_iff.mp hts'
      obtain ⟨w, hw⟩ := ihr hr (fun hunfused' => hfused ⟨hunfused, hunfused'⟩) hbehind hts''
      exact ⟨w, List.mem_append_right _ (List.mem_append_right _ hw)⟩
    · exact ihl hl hunfused ( behind_infix ho _) h
  | mix => exact absurd hspelt id
  | post => exact absurd hspelt id

end squonk.render
