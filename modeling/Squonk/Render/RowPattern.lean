import Squonk.Ast.Literal.NumberParts
import Squonk.Parser.RowPattern.Reading
import Squonk.Render.Tokens
import Squonk.Tokenizer.Names

/-!
# The text of row patterns

The text of a pattern is tokenized and parsed back to the pattern, but where any run of operator
characters is one operator: there a start anchor and the quantifier on it are one operator, and the
text is no pattern.
-/

open squonk.ast squonk.ast.literal squonk.dialect squonk.tokenizer squonk.parser.row_pattern

namespace squonk.render.row_pattern

/-! ## Text -/

def counts_text : RepetitionQuantifier → List Char
  | .Exactly n => Nat.toDigits 10 n
  | .AtLeast n => Nat.toDigits 10 n ++ [',']
  | .AtMost m => ',' :: Nat.toDigits 10 m
  | .Range n m => Nat.toDigits 10 n ++ ',' :: Nat.toDigits 10 m
  | _ => []

def quantifier_text : RepetitionQuantifier → List Char
  | .ZeroOrMore => ['*']
  | .OneOrMore => ['+']
  | .AtMostOne => ['?']
  | quantifier => '{' :: (counts_text quantifier ++ ['}'])

def permute_text : List Char := "PERMUTE".toList

mutual

def pattern_text : MatchRecognizePattern → List Char
  | .Symbol symbol => ident symbol
  | .Start => ['^']
  | .End => ['$']
  | .Concat patterns => patterns_text [' '] patterns
  | .Alternation patterns => patterns_text [' ', '|', ' '] patterns
  | .Group pattern => '(' :: (pattern_text pattern ++ [')'])
  | .Exclude pattern => ['{', '-', ' '] ++ (pattern_text pattern ++ [' ', '-', '}'])
  | .Permute patterns => permute_text ++ '(' :: (patterns_text [',', ' '] patterns ++ [')'])
  | .Repetition pattern quantifier => pattern_text pattern ++ quantifier_text quantifier

/-- The patterns with the separator between them. -/
def patterns_text (separator : List Char) : List MatchRecognizePattern → List Char
  | [] => []
  | [p] => pattern_text p
  | p :: q :: ps => pattern_text p ++ (separator ++ patterns_text separator (q :: ps))

end

example : pattern_text (.Repetition (.Group (.Alternation [.Symbol (.Word ['a']), .Start]))
    .OneOrMore) = "(a | ^)+".toList := rfl

/-! ## Symbols -/

section
variable {features : FeatureSet} (hquotes : features.identifier_quotes ⊆ name_quotes)

theorem name_text {t : Token} {symbol : Ident} (h : parser.expr.column_name features t = some symbol) :
    ident symbol = t.text ∧ t.is_name = true := by
  unfold parser.expr.column_name at h
  split at h
  · split at h
    · cases h
    · obtain rfl := Option.some.inj h
      exact ⟨rfl, rfl⟩
  · obtain rfl := Option.some.inj h
    exact ⟨rfl, rfl⟩
  · split at h
    · cases h
    · obtain rfl := Option.some.inj h
      exact ⟨rfl, rfl⟩
  · cases h

/-- The characters that stand behind a quantifier or a bar. -/
def closers : List Char := [' ', ')', ',', '{', '}']

/-- No operator goes on with a closer. -/
theorem closers_plain : ∀ c ∈ closers, is_operator_char features c = false ∧
    c ∉ ['>', '@', '|', '-'] := by
  intro c hc
  simp only [closers, List.mem_cons, List.not_mem_nil, or_false] at hc
  obtain rfl | rfl | rfl | rfl | rfl := hc
  all_goals exact ⟨rfl, by decide⟩

def punctuation : List (Char × Token) :=
  [('(', .lparen), (')', .rparen), (',', .comma), ('{', .punctuation .LBrace),
   ('}', .punctuation .RBrace)]

/-- The operators of patterns. -/
def operators : List (Char × Operator) :=
  [('^', .Caret), ('*', .Star), ('+', .Plus), ('|', .Pipe), ('-', .Minus)]

/-- An operator of a pattern is read back in front of what neither fuses with it nor makes it
longer. -/
theorem scan_pattern_operator {c : Char} {op : Operator} (h : (c, op) ∈ operators)
    {cs : List Char} (hlonger : ∀ d, cs.head? = some d → d ∉ ['>', '@', '|', '-'])
    (hrun : features.operator_syntax.custom_operators = true →
      ∀ d, cs.head? = some d → is_operator_char features d = false) :
    scan_operator features c cs = some (.operator op, cs) := by
  have hall : ∀ sign ∈ operators, sign.2.text = [sign.1] ∧ ∀ known ∈ symbol_operators,
      known.text.head? = some sign.1 →
        known = sign.2 ∨ known.text.tail.head?.any (['>', '@', '|', '-'].contains ·) = true := by
    decide
  obtain ⟨htext, hknown⟩ := hall (c, op) h
  have hmem : op ∈ known_operators features := by
    simp only [operators, List.mem_cons, Prod.mk.injEq, List.not_mem_nil, or_false] at h
    obtain ⟨-, rfl⟩ | ⟨-, rfl⟩ | ⟨-, rfl⟩ | ⟨-, rfl⟩ | ⟨-, rfl⟩ := h
    all_goals simp [known_operators]
  apply scan_operator_alone hmem htext _ hrun
  intro known hsymbol hhead
  obtain rfl | hany := hknown known hsymbol hhead
  · exact .inl rfl
  · rw [Option.any_eq_true] at hany
    obtain ⟨d, htail, hd⟩ := hany
    exact .inr ⟨d, htail, fun hcs => hlonger d hcs (List.contains_iff_mem.mp hd)⟩

include hquotes

theorem tokenize_punctuation {c : Char} {t : Token} (h : (c, t) ∈ punctuation) (cs : List Char) :
    tokenize features (c :: cs) = (tokenize features cs).map (t :: ·) := by
  have hnone : ∀ d, (∀ style ∈ name_quotes, style.1 ≠ d) →
      opening_identifier_quote features d = none :=
    fun d hd => opening_quote_none fun style hstyle => hd style (hquotes hstyle)
  simp only [punctuation, List.mem_cons, Prod.mk.injEq, List.not_mem_nil, or_false] at h
  obtain ⟨rfl, rfl⟩ | ⟨rfl, rfl⟩ | ⟨rfl, rfl⟩ | ⟨rfl, rfl⟩ | ⟨rfl, rfl⟩ := h
  all_goals
    apply tokenize_of_scan (skip_trivia_none_iff.mpr ⟨rfl, rfl, rfl⟩)
    rw [scan_token_symbol rfl (hnone _ (by decide))]
    rfl

theorem tokenize_operator_of_scan {c : Char} {o : Operator} (h : (c, o) ∈ operators)
    {cs : List Char} (hminus : cs.head? ≠ some '-') {found : Operator} {rest : List Char}
    (hscan : scan_operator features c cs = some (.operator found, rest)) :
    tokenize features (c :: cs) = (tokenize features rest).map (.operator found :: ·) := by
  have hnone : ∀ d, (∀ style ∈ name_quotes, style.1 ≠ d) →
      opening_identifier_quote features d = none :=
    fun d hd => opening_quote_none fun style hstyle => hd style (hquotes hstyle)
  have hhead : (cs.head? == some '-') = false := beq_eq_false_iff_ne.mpr hminus
  simp only [operators, List.mem_cons, Prod.mk.injEq, List.not_mem_nil, or_false] at h
  obtain ⟨rfl, -⟩ | ⟨rfl, -⟩ | ⟨rfl, -⟩ | ⟨rfl, -⟩ | ⟨rfl, -⟩ := h
  all_goals
    apply tokenize_of_scan (skip_trivia_none_iff.mpr ⟨rfl, by rw [hhead]; rfl, rfl⟩)
    rw [scan_token_symbol rfl (hnone _ (by decide)), ← hscan]
    rfl

theorem tokenize_operator {c : Char} {o : Operator} (h : (c, o) ∈ operators)
    {cs : List Char} (hlonger : ∀ d, cs.head? = some d → d ∉ ['>', '@', '|', '-'])
    (hrun : features.operator_syntax.custom_operators = true →
      ∀ d, cs.head? = some d → is_operator_char features d = false) :
    tokenize features (c :: cs) = (tokenize features cs).map (.operator o :: ·) := by
  apply tokenize_operator_of_scan hquotes h _ (scan_pattern_operator h hlonger hrun)
  intro hhead
  exact hlonger '-' hhead (by decide)

theorem tokenize_operator_closed {c : Char} {o : Operator} (h : (c, o) ∈ operators)
    {cs : List Char} (hcs : ∀ d, cs.head? = some d → d ∈ closers) :
    tokenize features (c :: cs) = (tokenize features cs).map (.operator o :: ·) := by
  apply tokenize_operator hquotes h
  · exact fun d hd => (@closers_plain features d (hcs d hd)).2
  · exact fun _ d hd => (closers_plain d (hcs d hd)).1

/-! ## Quantifiers -/

omit hquotes in
theorem pattern_count_digits {text : List Char} {n : Nat} (h : pattern_count text = some n) :
    pattern_count (Nat.toDigits 10 n) = some n := by
  unfold pattern_count at h
  split at h
  · rename_i hcount
    simp only [Bool.and_eq_true, decide_eq_true_eq] at hcount
    obtain rfl := Option.some.inj h
    have hdigits : (Nat.toDigits 10 (digits_value 10 text)).all Char.isDigit = true := by
      rw [List.all_eq_true]
      exact fun c hc => Nat.isDigit_of_mem_toDigits (by decide) (by decide) hc
    have hne : (Nat.toDigits 10 (digits_value 10 text)).isEmpty = false := by
      rw [List.isEmpty_eq_false_iff]
      exact Nat.toDigits_ne_nil
    rw [pattern_count, hdigits, hne, digits_value_toDigits]
    rw [if_pos (by simpa using hcount.2)]
  · cases h

theorem tokenize_digits (n : Nat) {rest : List Char}
    (hrest : ∀ c, rest.head? = some c → c ∈ marks) :
    tokenize features (Nat.toDigits 10 n ++ rest) =
      (tokenize features rest).map (.number (Nat.toDigits 10 n) :: ·) := by
  have hnames : ∀ style ∈ name_quotes, style.1.isDigit = false := by decide
  apply tokenize_count hrest (fun style hstyle => hnames style (hquotes hstyle))
    Nat.toDigits_ne_nil
  exact fun c hc => Nat.isDigit_of_mem_toDigits (by decide) (by decide) hc

/-- The counts of a bound are read back from their text. -/
theorem counts_reread {ts : List Token} {quantifier : RepetitionQuantifier}
    (h : Counts ts quantifier) :
    ∃ us, Counts us quantifier ∧ ∀ rest, tokenize features
      (counts_text quantifier ++ '}' :: rest) =
        (tokenize features ('}' :: rest)).map (us ++ ·) := by
  have hbrace (rest : List Char) : ∀ c, ('}' :: rest).head? = some c → c ∈ marks := by
    intro c hc
    rw [← Option.some.inj hc]
    decide
  have hcomma (rest : List Char) : ∀ c, (',' :: rest).head? = some c → c ∈ marks := by
    intro c hc
    rw [← Option.some.inj hc]
    decide
  cases h with
  | @exactly _ n h =>
    refine ⟨_, .exactly (pattern_count_digits h), fun rest => ?_⟩
    exact tokenize_digits hquotes n (hbrace rest)
  | @at_least _ n h =>
    refine ⟨_, .at_least (pattern_count_digits h), fun rest => ?_⟩
    rw [counts_text, List.append_assoc, List.singleton_append,
      tokenize_digits hquotes n (hcomma _), tokenize_punctuation hquotes (t := .comma) (by decide),
      Option.map_map]
    rfl
  | @at_most _ m h =>
    refine ⟨_, .at_most (pattern_count_digits h), fun rest => ?_⟩
    rw [counts_text, List.cons_append, tokenize_punctuation hquotes (t := .comma) (by decide),
      tokenize_digits hquotes m (hbrace _), Option.map_map]
    rfl
  | @range _ _ n m h h' =>
    refine ⟨_, .range (pattern_count_digits h) (pattern_count_digits h'), fun rest => ?_⟩
    rw [counts_text, List.append_assoc, List.cons_append, tokenize_digits hquotes n (hcomma _),
      tokenize_punctuation hquotes (t := .comma) (by decide),
      tokenize_digits hquotes m (hbrace _), Option.map_map, Option.map_map]
    rfl

theorem quantifier_reread {ts : List Token} {quantifier : RepetitionQuantifier}
    (h : Quantified ts quantifier) :
    ∃ us, Quantified us quantifier ∧ ∀ rest, (∀ c, rest.head? = some c → c ∈ closers) →
      tokenize features (quantifier_text quantifier ++ rest) =
        (tokenize features rest).map (us ++ ·) := by
  cases h with
  | star => exact ⟨_, .star, fun rest hrest => tokenize_operator_closed hquotes (by decide) hrest⟩
  | plus => exact ⟨_, .plus, fun rest hrest => tokenize_operator_closed hquotes (by decide) hrest⟩
  | bound h =>
    obtain ⟨us, hus, htokens⟩ := counts_reread hquotes h
    refine ⟨_, .bound hus, fun rest _ => ?_⟩
    have htext : quantifier_text quantifier = '{' :: (counts_text quantifier ++ ['}']) := by
      cases h
      all_goals rfl
    rw [htext, List.cons_append, List.append_assoc, List.singleton_append,
      tokenize_punctuation hquotes (t := .punctuation .LBrace) (by decide), htokens,
      tokenize_punctuation hquotes (t := .punctuation .RBrace) (by decide), Option.map_map,
      Option.map_map]
    congr 1
    funext vs
    simp

/-! ## Patterns -/

/-- What a start anchor and the quantifier on it look like next to each other. -/
def RepeatsAnchor (ts : List Token) : Prop :=
  ∃ op, (op = .Star ∨ op = .Plus) ∧ [.operator .Caret, .operator op] <:+: ts

omit hquotes in
theorem RepeatsAnchor.mono {ts us : List Token} (h : RepeatsAnchor ts) (hts : ts <:+: us) :
    RepeatsAnchor us := by
  obtain ⟨op, hop, hinfix⟩ := h
  exact ⟨op, hop, hinfix.trans hts⟩

/-- What the patterns of a part are separated by. -/
def separator : Rank → List Char
  | .sequences => [' ', '|', ' ']
  | .members => [',', ' ']
  | _ => [' ']

/-- The characters that may stand behind the text of a part. -/
def follows : Rank → List Char
  | .primary => [' ', ')', ',', '*', '+', '{']
  | _ => [' ', ')', ',']

/-- What may stand behind the text of a part: no quantifier that would fuse with an anchor. -/
structure Follows (features : FeatureSet) (rank : Rank) (ps : List MatchRecognizePattern)
    (rest : List Char) : Prop where
  head : ∀ c, rest.head? = some c → c ∈ follows rank
  anchor : features.operator_syntax.custom_operators = true → ps = [.Start] →
    ∀ c, rest.head? = some c → c ∈ closers

omit hquotes in
theorem Follows.of_closed {rank : Rank} {ps : List MatchRecognizePattern} {rest : List Char}
    (h : ∀ c, rest.head? = some c → c ∈ [' ', ')', ',']) : Follows features rank ps rest := by
  have hclosers : ∀ c ∈ [' ', ')', ','], c ∈ closers := forall_mem_of_all (by decide)
  have hrank : ∀ c ∈ [' ', ')', ','], c ∈ follows rank := by
    cases rank
    all_goals exact forall_mem_of_all (by decide)
  exact ⟨fun c hc => hrank c (h c hc), fun _ _ c hc => hclosers c (h c hc)⟩

omit hquotes in
/-- In front of a given character. -/
theorem Follows.cons {rank : Rank} {ps : List MatchRecognizePattern} {c : Char}
    (hc : c ∈ [' ', ')', ',']) (rest : List Char) : Follows features rank ps (c :: rest) := by
  apply Follows.of_closed
  intro d hd
  rw [← Option.some.inj hd]
  exact hc

/-- The patterns of a part are read back from their text, by tokens that may differ from the ones
they were read from in the digits of a count. -/
def Rereads (features : FeatureSet) (n : Nat) (rank : Rank) (ps : List MatchRecognizePattern) :
    Prop :=
  ∃ us, Reads features n rank us ps ∧ ∀ rest, Follows features rank ps rest →
    tokenize features (patterns_text (separator rank) ps ++ rest) =
      (tokenize features rest).map (us ++ ·)

omit hquotes in
theorem patterns_text_single (w : List Char) (p : MatchRecognizePattern) :
    patterns_text w [p] = pattern_text p := by
  rw [patterns_text]

omit hquotes in
theorem patterns_text_cons {w : List Char} {p : MatchRecognizePattern}
    {ps : List MatchRecognizePattern} (hps : ps ≠ []) :
    patterns_text w (p :: ps) = pattern_text p ++ (w ++ patterns_text w ps) := by
  cases ps with
  | nil => exact absurd rfl hps
  | cons q ps => rw [patterns_text]

omit hquotes in
theorem reads_ne_nil {n : Nat} {rank : Rank} {ts : List Token} {ps : List MatchRecognizePattern}
    (h : Reads features n rank ts ps) : ps ≠ [] := by
  cases h
  all_goals exact List.cons_ne_nil _ _

omit hquotes in
/-- A part that another part is as it is. -/
theorem Rereads.lift {n : Nat} {rank rank' : Rank} {p : MatchRecognizePattern}
    (h : Rereads features n rank [p])
    (hreads : ∀ {us}, Reads features n rank us [p] → Reads features n rank' us [p])
    (hfollows : follows rank' ⊆ follows rank) : Rereads features n rank' [p] := by
  obtain ⟨us, hus, htokens⟩ := h
  refine ⟨us, hreads hus, fun rest hrest => ?_⟩
  rw [patterns_text_single]
  rw [patterns_text_single] at htokens
  exact htokens rest ⟨fun c hc => hfollows (hrest.head c hc), hrest.anchor⟩

/-- The bar between alternatives. -/
theorem tokenize_bar (cs : List Char) : tokenize features ([' ', '|', ' '] ++ cs) =
    (tokenize features cs).map (.operator .Pipe :: ·) := by
  change tokenize features (' ' :: '|' :: ' ' :: cs) = _
  have hblank : ∀ c, (' ' :: cs).head? = some c → c ∈ closers := by
    intro c hc
    rw [← Option.some.inj hc]
    decide
  rw [tokenize_blank, tokenize_operator_closed hquotes (o := .Pipe) (by decide) hblank,
    tokenize_blank]

/-- The comma between members. -/
theorem tokenize_comma (cs : List Char) : tokenize features ([',', ' '] ++ cs) =
    (tokenize features cs).map (.comma :: ·) := by
  change tokenize features (',' :: ' ' :: cs) = _
  rw [tokenize_punctuation hquotes (t := .comma) (by decide), tokenize_blank]

omit hquotes in
theorem tokenize_blank_mark (cs : List Char) : tokenize features ([' '] ++ cs) =
    (tokenize features cs).map ([] ++ ·) := by
  rw [List.singleton_append, tokenize_blank]
  exact Option.map_id'.symm

omit hquotes in
theorem separator_head {rank : Rank}
    (h : (separator rank).head?.any ([' ', ')', ','].contains ·) = true) (cs : List Char) (c : Char)
    (hc : (separator rank ++ cs).head? = some c) : c ∈ [' ', ')', ','] := by
  cases hsep : separator rank with
  | nil =>
    rw [hsep] at h
    cases h
  | cons d ds =>
    rw [hsep] at h hc
    rw [← Option.some.inj hc]
    exact List.contains_iff_mem.mp h

omit hquotes in
theorem lookup_permute : lookup_keyword permute_text = none :=
  lookup_keyword_none (by decide +kernel)

theorem tokenize_permute (cs : List Char) : tokenize features (permute_text ++ '(' :: cs) =
    (tokenize features ('(' :: cs)).map (.word permute_text :: ·) := by
  have hnames : ∀ style ∈ name_quotes, is_identifier_start style.1 = false := by decide
  have hmarks : ∀ c, ('(' :: cs).head? = some c → c ∈ marks := by
    intro c hc
    rw [← Option.some.inj hc]
    decide
  have hall : ∀ d ∈ "ERMUTE".toList, is_identifier_continue features d = true := by
    have hstart : ∀ d ∈ "ERMUTE".toList, is_identifier_start d = true :=
      forall_mem_of_all (by decide)
    intro d hd
    rw [is_identifier_continue, hstart d hd, Bool.true_or]
    rfl
  have hword : scan_word features 'P' "ERMUTE".toList = (.word permute_text, []) := by
    rw [scan_word_self hall]
    change (((lookup_keyword permute_text).map Token.keyword).getD (.word permute_text), []) = _
    rw [lookup_permute]
    rfl
  exact tokenize_bare_name hmarks (fun style hstyle => hnames style (hquotes hstyle)) rfl hall hword

omit hquotes in
theorem bound_head {ts : List Token} {quantifier : RepetitionQuantifier} (h : Counts ts quantifier)
    {rest : List Char} {c : Char}
    (hc : (quantifier_text quantifier ++ rest).head? = some c) : c = '{' := by
  cases h
  all_goals exact (Option.some.inj hc).symm

omit hquotes in
theorem quantifier_head {ts : List Token} {quantifier : RepetitionQuantifier}
    (h : Quantified ts quantifier) {rest : List Char} {c : Char}
    (hc : (quantifier_text quantifier ++ rest).head? = some c) : c = '*' ∨ c = '+' ∨ c = '{' := by
  cases h with
  | star => exact .inl (Option.some.inj hc).symm
  | plus => exact .inr (.inl (Option.some.inj hc).symm)
  | bound h => exact .inr (.inr (bound_head h hc))

omit hquotes in
/-- A part in front of the parts that go with it. -/
theorem Rereads.list {n : Nat} {rank rank' rank'' : Rank} {p : MatchRecognizePattern}
    {ps : List MatchRecognizePattern} (h : Rereads features n rank [p])
    (hrest : Rereads features n rank' ps) (hps : ps ≠ []) (mark : List Token)
    (hmark : ∀ cs, tokenize features (separator rank' ++ cs) =
      (tokenize features cs).map (mark ++ ·))
    (hhead : ∀ cs c, (separator rank' ++ cs).head? = some c → c ∈ [' ', ')', ','])
    {qs : List MatchRecognizePattern}
    (hreads : ∀ {us vs}, Reads features n rank us [p] → Reads features n rank' vs ps →
      Reads features n rank'' (us ++ (mark ++ vs)) qs)
    (htext : patterns_text (separator rank'') qs = patterns_text (separator rank') (p :: ps))
    (hfollows : follows rank'' ⊆ [' ', ')', ',']) : Rereads features n rank'' qs := by
  obtain ⟨us, hus, htokens⟩ := h
  obtain ⟨vs, hvs, htokens'⟩ := hrest
  refine ⟨_, hreads hus hvs, fun rest hrest => ?_⟩
  have hclosed : ∀ c, rest.head? = some c → c ∈ [' ', ')', ','] :=
    fun c hc => hfollows (hrest.head c hc)
  rw [patterns_text_single] at htokens
  rw [htext, patterns_text_cons hps, List.append_assoc, List.append_assoc,
    htokens _ (Follows.of_closed (hhead _)), hmark, htokens' rest (Follows.of_closed hclosed),
    Option.map_map, Option.map_map]
  congr 1
  funext ws
  simp

/-- The patterns that some source has are read back from their text where no operators fuse, or no
anchor is repeated. -/
theorem rereads_of_reads {n : Nat} {rank : Rank} {ts : List Token} {ps : List MatchRecognizePattern}
    (h : Reads features n rank ts ps) (hscanned : ∀ t ∈ ts, Scanned features t)
    (hunfused : features.operator_syntax.custom_operators = true → ¬ RepeatsAnchor ts) :
    Rereads features n rank ps := by
  induction h with
  | @symbol n t symbol h hpermute =>
    obtain ⟨htext, hname⟩ := name_text h
    refine ⟨_, .symbol h hpermute, fun rest hrest => ?_⟩
    have hmarks : ∀ c, rest.head? = some c → c ∈ marks := by
      have hall : ∀ c ∈ follows .primary, c ∈ marks := forall_mem_of_all (by decide)
      exact fun c hc => hall c (hrest.head c hc)
    have htokens := tokenize_name hmarks hquotes hname (hscanned t (.head _))
    rw [patterns_text_single, pattern_text, htext, htokens]
    rfl
  | @start n =>
    refine ⟨_, .start, fun rest hrest => ?_⟩
    have hall : ∀ c ∈ follows .primary, c ∉ ['>', '@', '|', '-'] :=
      forall_mem_of_all (by decide)
    rw [patterns_text_single, pattern_text, List.singleton_append]
    apply tokenize_operator hquotes (o := .Caret) (by decide)
    · exact fun d hd => hall d (hrest.head d hd)
    · exact fun hcustom d hd => (closers_plain d (hrest.anchor hcustom rfl d hd)).1
  | @group n ts p h ih =>
    obtain ⟨us, hus, htokens⟩ := ih (fun t ht => hscanned t (by simp [ht]))
      (fun hcustom hrepeats => hunfused hcustom (hrepeats.mono ⟨[.lparen], [.rparen], rfl⟩))
    refine ⟨_, .group hus, fun rest _ => ?_⟩
    have hclose : Follows features .alternatives [p] (')' :: rest) := Follows.cons (by decide) _
    rw [patterns_text_single] at htokens
    rw [patterns_text_single, pattern_text, List.cons_append, List.append_assoc,
      tokenize_punctuation hquotes (t := .lparen) (by decide), List.singleton_append,
      htokens _ hclose, tokenize_punctuation hquotes (t := .rparen) (by decide), Option.map_map,
      Option.map_map]
    congr 1
    funext ws
    simp
  | @exclude n ts p h ih =>
    obtain ⟨us, hus, htokens⟩ := ih (fun t ht => hscanned t (by simp [ht]))
      (fun hcustom hrepeats => hunfused hcustom (hrepeats.mono
        ⟨[.punctuation .LBrace, .operator .Minus], [.operator .Minus, .punctuation .RBrace], rfl⟩))
    refine ⟨_, .exclude hus, fun rest _ => ?_⟩
    have hblank (cs : List Char) : ∀ d, (' ' :: cs).head? = some d → d ∈ closers := by
      intro d hd
      rw [← Option.some.inj hd]
      decide
    have hbrace : ∀ d, ('}' :: rest).head? = some d → d ∈ closers := by
      intro d hd
      rw [← Option.some.inj hd]
      decide
    have hclose : Follows features .alternatives [p] (' ' :: '-' :: '}' :: rest) :=
      Follows.cons (by decide) _
    have htext : patterns_text (separator .primary) [.Exclude p] ++ rest =
        '{' :: '-' :: ' ' :: (pattern_text p ++ ' ' :: '-' :: '}' :: rest) := by
      rw [patterns_text_single, pattern_text]
      simp
    rw [patterns_text_single] at htokens
    rw [htext, tokenize_punctuation hquotes (t := .punctuation .LBrace) (by decide),
      tokenize_operator_closed hquotes (o := .Minus) (by decide) (hblank _), tokenize_blank,
      htokens _ hclose, tokenize_blank,
      tokenize_operator_closed hquotes (o := .Minus) (by decide) hbrace,
      tokenize_punctuation hquotes (t := .punctuation .RBrace) (by decide)]
    simp only [Option.map_map]
    congr 1
    funext ws
    simp
  | @permute n t ts ps ht h ih =>
    obtain ⟨us, hus, htokens⟩ := ih (fun t ht => hscanned t (by simp [ht]))
      (fun hcustom hrepeats => hunfused hcustom (hrepeats.mono ⟨[t, .lparen], [.rparen], rfl⟩))
    refine ⟨_, .permute (t := .word permute_text) rfl hus, fun rest _ => ?_⟩
    have hclose : Follows features .members ps (')' :: rest) := Follows.cons (by decide) _
    have htext : patterns_text (separator .primary) [.Permute ps] ++ rest =
        permute_text ++ '(' :: (patterns_text (separator .members) ps ++ ')' :: rest) := by
      rw [patterns_text_single, pattern_text, separator]
      simp
    rw [htext, tokenize_permute hquotes, tokenize_punctuation hquotes (t := .lparen) (by decide),
      htokens _ hclose, tokenize_punctuation hquotes (t := .rparen) (by decide)]
    simp only [Option.map_map]
    congr 1
    funext ws
    simp
  | bare h ih => exact (ih hscanned hunfused).lift .bare (by decide)
  | @repetition n ts us p quantifier h hquantifier ih =>
    obtain ⟨vs, hvs, htokens⟩ := ih (fun t ht => hscanned t (List.mem_append_left _ ht))
      (fun hcustom hrepeats => hunfused hcustom (hrepeats.mono (List.infix_append' [] ts us)))
    obtain ⟨ws, hws, hcounts⟩ := quantifier_reread hquotes hquantifier
    refine ⟨_, .repetition hvs hws, fun rest hrest => ?_⟩
    have hclosers : ∀ c, rest.head? = some c → c ∈ closers := by
      have hall : ∀ c ∈ follows .factor, c ∈ closers := forall_mem_of_all (by decide)
      exact fun c hc => hall c (hrest.head c hc)
    have hfollows : Follows features .primary [p] (quantifier_text quantifier ++ rest) := by
      refine ⟨fun c hc => ?_, fun hcustom hstart c hc => ?_⟩
      · obtain rfl | rfl | rfl := quantifier_head hquantifier hc
        all_goals decide
      · obtain rfl := List.cons.inj hstart |>.1
        cases h
        have hplain : ∀ op, (op = .Star ∨ op = .Plus) → us ≠ [.operator op] := by
          rintro op hop rfl
          exact hunfused hcustom ⟨op, hop, List.infix_refl _⟩
        cases hquantifier with
        | star => exact absurd rfl (hplain .Star (.inl rfl))
        | plus => exact absurd rfl (hplain .Plus (.inr rfl))
        | bound hbound =>
          obtain rfl := bound_head hbound hc
          decide
    rw [patterns_text_single] at htokens
    rw [patterns_text_single, pattern_text, List.append_assoc, htokens _ hfollows,
      hcounts rest hclosers, Option.map_map]
    congr 1
    funext xs
    simp
  | last_factor h ih => exact (ih hscanned hunfused).lift .last_factor (by decide)
  | @factor n ts us p ps h hrest ih ih' =>
    have hleft := ih (fun t ht => hscanned t (by simp [ht])) (fun hcustom hrepeats =>
      hunfused hcustom (hrepeats.mono (List.infix_append' [] ts us)))
    have hright := ih' (fun t ht => hscanned t (by simp [ht])) (fun hcustom hrepeats =>
      hunfused hcustom (hrepeats.mono (List.suffix_append ts us).isInfix))
    apply hleft.list hright (reads_ne_nil hrest) [] tokenize_blank_mark
    · exact separator_head (by decide)
    · intro us vs hus hvs
      exact .factor hus hvs
    · rfl
    · decide
  | single h ih => exact (ih hscanned hunfused).lift .single (by decide)
  | @concat n ts us p ps h hrest ih ih' =>
    have hleft := ih (fun t ht => hscanned t (by simp [ht])) (fun hcustom hrepeats =>
      hunfused hcustom (hrepeats.mono (List.infix_append' [] ts us)))
    have hright := ih' (fun t ht => hscanned t (by simp [ht])) (fun hcustom hrepeats =>
      hunfused hcustom (hrepeats.mono (List.suffix_append ts us).isInfix))
    apply hleft.list hright (reads_ne_nil hrest) [] tokenize_blank_mark
    · exact separator_head (by decide)
    · intro us vs hus hvs
      exact .concat hus hvs
    · rw [patterns_text_single, pattern_text]
      rfl
    · decide
  | last_sequence h ih => exact (ih hscanned hunfused).lift .last_sequence (by decide)
  | @sequence n ts us p ps h hrest ih ih' =>
    have hleft := ih (fun t ht => hscanned t (by simp [ht])) (fun hcustom hrepeats =>
      hunfused hcustom (hrepeats.mono (List.infix_append' [] ts (.operator .Pipe :: us))))
    have hright := ih' (fun t ht => hscanned t (by simp [ht])) (fun hcustom hrepeats =>
      hunfused hcustom (hrepeats.mono ((List.suffix_cons _ us).trans (List.suffix_append ts _)).isInfix))
    apply hleft.list hright (reads_ne_nil hrest) [.operator .Pipe]
      (tokenize_bar hquotes)
    · exact separator_head (by decide)
    · intro us vs hus hvs
      exact .sequence hus hvs
    · rfl
    · decide
  | unbranched h ih => exact (ih hscanned hunfused).lift .unbranched (by decide)
  | @alternation n ts us p ps h hrest ih ih' =>
    have hleft := ih (fun t ht => hscanned t (by simp [ht])) (fun hcustom hrepeats =>
      hunfused hcustom (hrepeats.mono (List.infix_append' [] ts (.operator .Pipe :: us))))
    have hright := ih' (fun t ht => hscanned t (by simp [ht])) (fun hcustom hrepeats =>
      hunfused hcustom (hrepeats.mono ((List.suffix_cons _ us).trans (List.suffix_append ts _)).isInfix))
    apply hleft.list hright (reads_ne_nil hrest) [.operator .Pipe]
      (tokenize_bar hquotes)
    · exact separator_head (by decide)
    · intro us vs hus hvs
      exact .alternation hus hvs
    · rw [patterns_text_single, pattern_text]
      rfl
    · decide
  | last_member h ih => exact (ih hscanned hunfused).lift .last_member (by decide)
  | @member n ts us p ps h hrest ih ih' =>
    have hleft := ih (fun t ht => hscanned t (by simp [ht])) (fun hcustom hrepeats =>
      hunfused hcustom (hrepeats.mono (List.infix_append' [] ts (.comma :: us))))
    have hright := ih' (fun t ht => hscanned t (by simp [ht])) (fun hcustom hrepeats =>
      hunfused hcustom (hrepeats.mono ((List.suffix_cons _ us).trans (List.suffix_append ts _)).isInfix))
    apply hleft.list hright (reads_ne_nil hrest) [.comma] (tokenize_comma hquotes)
    · exact separator_head (by decide)
    · intro us vs hus hvs
      exact .member hus hvs
    · rfl
    · decide

end

end squonk.render.row_pattern
