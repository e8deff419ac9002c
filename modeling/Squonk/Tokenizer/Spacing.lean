import Mathlib.Data.List.Find
import Squonk.Tokenizer.Progress

/-!
# Tokens keep apart

A token's own text is scanned the same with a blank, a parenthesis or a dot behind it. What
the scanner once read as a token is one again when its text stands alone.
-/

open squonk.ast squonk.dialect

namespace squonk.tokenizer

variable {features : FeatureSet}

/-- The text `w` is the token `t` and nothing more. -/
def Spelled (features : FeatureSet) (w : List Char) (t : Token) : Prop :=
  ∃ c cs, w = c :: cs ∧ skip_trivia features c cs = some none ∧
    scan_token features c cs = some (t, [])

/-- The characters that end any token in front of them. -/
def delimiters : List Char := [' ', ')', '(', '.']

/-- What follows leaves the token in front of it alone. -/
structure Ends (t : Token) (rest : List Char) : Prop where
  head : ∀ c, rest.head? = some c → c ∈ delimiters
  number : ∀ text, t = .number text → rest.head? ≠ some '.'
  string : ∀ text, t = .string text → ∀ close, extends_string close rest = false

/-- What the scanner's lookahead relies on. -/
structure Delimited (features : FeatureSet) : Prop where
  opening : ∀ style ∈ features.identifier_quotes, is_operator style.1 = false
  opening_start : ∀ style ∈ features.identifier_quotes, is_identifier_start style.1 = false
  closing : ∀ style ∈ features.identifier_quotes, style.2 ∉ delimiters
  eof : features.operator_syntax.custom_operators = true →
    features.comment_syntax.unterminated_block_comment_at_eof = false

section Append

variable {rest : List Char} (hends : ∀ c, rest.head? = some c → c ∈ delimiters)

include hends

theorem head_append_eq {c : Char} (hc : c ∉ delimiters) (cs : List Char) :
    (cs ++ rest).head? = some c ↔ cs.head? = some c := by
  cases cs with
  | nil =>
    constructor
    · intro h
      exact absurd (hends c h) hc
    · intro h
      cases h
  | cons d cs => simp

theorem any_head_append (p : Char → Bool) (hp : ∀ c ∈ delimiters, p c = false) (cs : List Char) :
    (cs ++ rest).head?.any p = cs.head?.any p := by
  cases cs with
  | nil =>
    cases hrest : rest.head? with
    | none => simp [hrest]
    | some c => simp [hrest, hp c (hends c hrest)]
  | cons d cs => rfl

theorem takeWhile_append_delimited (p : Char → Bool) (hp : ∀ c ∈ delimiters, p c = false)
    (cs : List Char) : (cs ++ rest).takeWhile p = cs.takeWhile p := by
  induction cs with
  | nil =>
    cases rest with
    | nil => rfl
    | cons c rest =>
      rw [List.nil_append, List.takeWhile_cons_of_neg (by simp [hp c (hends c rfl)])]
      rfl
  | cons d cs ih =>
    rw [List.cons_append, List.takeWhile_cons, List.takeWhile_cons, ih]

theorem dropWhile_append_delimited (p : Char → Bool) (hp : ∀ c ∈ delimiters, p c = false)
    (cs : List Char) : (cs ++ rest).dropWhile p = cs.dropWhile p ++ rest := by
  induction cs with
  | nil =>
    cases rest with
    | nil => rfl
    | cons c rest =>
      rw [List.nil_append, List.dropWhile_cons_of_neg (by simp [hp c (hends c rfl)])]
      rfl
  | cons d cs ih =>
    rw [List.cons_append, List.dropWhile_cons, List.dropWhile_cons]
    split
    · exact ih
    · rfl

end Append

theorem not_identifier_continue : ∀ c ∈ delimiters, is_identifier_continue features c = false := by
  intro c hc
  simp only [delimiters, List.mem_cons, List.not_mem_nil, or_false] at hc
  rcases hc with rfl | rfl | rfl | rfl <;> simp [is_identifier_continue, is_identifier_start]

theorem not_identifier_start : ∀ c ∈ delimiters, is_identifier_start c = false := by
  intro c hc
  simp only [delimiters, List.mem_cons, List.not_mem_nil, or_false] at hc
  rcases hc with rfl | rfl | rfl | rfl <;> rfl

theorem not_digit : ∀ c ∈ delimiters, c.isDigit = false := by
  intro c hc
  simp only [delimiters, List.mem_cons, List.not_mem_nil, or_false] at hc
  rcases hc with rfl | rfl | rfl | rfl <;> rfl

theorem not_operator_char : ∀ c ∈ delimiters, is_operator_char features c = false := by
  intro c hc
  simp only [delimiters, List.mem_cons, List.not_mem_nil, or_false] at hc
  rcases hc with rfl | rfl | rfl | rfl
  all_goals
    simp [is_operator_char]

/-! ## What the lookahead sees -/

section Lookahead

variable {rest : List Char} (hends : ∀ c, rest.head? = some c → c ∈ delimiters)

include hends

theorem opens_prefixed_string_append (c : Char) (cs : List Char) :
    opens_prefixed_string features c (cs ++ rest) = opens_prefixed_string features c cs := by
  have hhead : ∀ d, d ∉ delimiters → ∀ cs : List Char,
      ((cs ++ rest).head? == some d) = (cs.head? == some d) := by
    intro d hd cs
    rw [Bool.eq_iff_iff, beq_iff_eq, beq_iff_eq]
    exact head_append_eq hends hd cs
  have hquote := hhead single_quote (by decide)
  have hdouble := hhead '"' (by decide)
  have hamp := hhead '&' (by decide)
  unfold opens_prefixed_string
  simp only [hquote, hdouble, hamp,
    dropWhile_append_delimited hends _ not_identifier_continue]
  cases cs with
  | nil => simp
  | cons d cs => simp only [List.cons_append, List.tail_cons, hquote, hdouble]

theorem opens_sigil_append (c : Char) (cs : List Char) :
    opens_sigil features c (cs ++ rest) = opens_sigil features c cs := by
  have hhead : ∀ d, d ∉ delimiters →
      ((cs ++ rest).head? == some d) = (cs.head? == some d) := by
    intro d hd
    rw [Bool.eq_iff_iff, beq_iff_eq, beq_iff_eq]
    exact head_append_eq hends hd cs
  have hnamed := any_head_append hends is_identifier_start not_identifier_start
  have hdigit := any_head_append hends Char.isDigit not_digit
  unfold opens_sigil
  simp only [hnamed, hdigit, hhead '~' (by decide), hhead '%' (by decide), hhead '@' (by decide)]
  cases cs with
  | nil => simp
  | cons d cs => simp only [List.cons_append, List.tail_cons, hnamed]

theorem opens_operator_append (c : Char) (cs : List Char) :
    opens_operator features c (cs ++ rest) = opens_operator features c cs := by
  have hhead : ∀ d, d ∉ delimiters →
      ((cs ++ rest).head? == some d) = (cs.head? == some d) := by
    intro d hd
    rw [Bool.eq_iff_iff, beq_iff_eq, beq_iff_eq]
    exact head_append_eq hends hd cs
  unfold opens_operator
  simp only [hhead '>' (by decide), hhead '?' (by decide), hhead '@' (by decide)]

theorem starts_comment_append (c : Char) (cs : List Char) :
    starts_comment c (cs ++ rest) = starts_comment c cs := by
  have hhead : ∀ d, d ∉ delimiters →
      ((cs ++ rest).head? == some d) = (cs.head? == some d) := by
    intro d hd
    rw [Bool.eq_iff_iff, beq_iff_eq, beq_iff_eq]
    exact head_append_eq hends hd cs
  simp only [starts_comment, hhead '-' (by decide), hhead '*' (by decide)]

/-! ## The scanners -/

theorem scan_word_append {c : Char} {cs : List Char} {t : Token}
    (h : scan_word features c cs = (t, [])) : scan_word features c (cs ++ rest) = (t, rest) := by
  unfold scan_word at h ⊢
  simp only [takeWhile_append_delimited hends _ not_identifier_continue,
    dropWhile_append_delimited hends _ not_identifier_continue]
  revert h
  dsimp only
  cases lookup_keyword (c :: cs.takeWhile (is_identifier_continue features)) with
  | none =>
    intro h
    obtain ⟨rfl, hrest⟩ := Prod.mk.inj h
    rw [hrest]
    rfl
  | some keyword =>
    intro h
    obtain ⟨rfl, hrest⟩ := Prod.mk.inj h
    rw [hrest]
    rfl

theorem scan_number_append {cs : List Char} {t : Token} (hdot : rest.head? ≠ some '.')
    (h : scan_number cs = some (t, [])) : scan_number (cs ++ rest) = some (t, rest) := by
  have hfixed : (eat_fixed_point cs).2 = [] →
      eat_fixed_point (cs ++ rest) = ((eat_fixed_point cs).1, rest) := by
    unfold eat_fixed_point
    rw [takeWhile_append_delimited hends _ not_digit, dropWhile_append_delimited hends _ not_digit]
    cases hdigits : cs.dropWhile Char.isDigit with
    | nil =>
      intro _
      rw [List.nil_append]
      split
      · exact absurd rfl hdot
      · rfl
    | cons d ds =>
      by_cases hd : d = '.'
      · subst hd
        intro hnil
        simp only [List.cons_append] at hnil ⊢
        rw [takeWhile_append_delimited hends _ not_digit,
          dropWhile_append_delimited hends _ not_digit, hnil]
        rfl
      · intro hnil
        split at hnil
        · rename_i heq
          exact absurd (List.cons.inj heq).1 hd
        · cases hnil
  unfold scan_number at h ⊢
  dsimp only at h ⊢
  split at h
  · cases h
  · obtain ⟨rfl, hnil⟩ := Prod.mk.inj (Option.some.inj h)
    rw [hfixed hnil]
    have hstart := any_head_append hends is_identifier_start not_identifier_start []
    rw [List.nil_append] at hstart
    dsimp only
    rw [hstart]
    rfl

omit hends in
theorem scan_quoted_body_append {close : Char} {escapes : Bool} {cs body behind : List Char}
    (hclose : rest.head? ≠ some close)
    (h : scan_quoted_body close escapes cs = some (body, behind)) :
    scan_quoted_body close escapes (cs ++ rest) = some (body, behind ++ rest) := by
  fun_induction scan_quoted_body close escapes cs generalizing body
  case case1 => cases h
  case case2 => cases h
  case case3 c hescape d cs ih =>
    obtain ⟨⟨body', behind'⟩, hbody, heq⟩ := Option.map_eq_some_iff.mp h
    obtain ⟨rfl, rfl⟩ := Prod.mk.inj heq
    rw [List.cons_append, scan_quoted_body.eq_def]
    simp only [hescape, if_true, List.cons_append, ih hbody, Option.map_some]
  case case4 c hescape hc =>
    obtain ⟨rfl, rfl⟩ := Prod.mk.inj (Option.some.inj h)
    rw [List.cons_append, scan_quoted_body.eq_def]
    simp only [hescape, hc, if_true, List.nil_append]
    cases rest with
    | nil => rfl
    | cons d rest =>
      have hd : (d == close) = false := by
        rw [beq_eq_false_iff_ne]
        intro heq
        exact hclose (by rw [heq]; rfl)
      simp [hd]
  case case5 c hescape hc d cs hd ih =>
    obtain ⟨⟨body', behind'⟩, hbody, heq⟩ := Option.map_eq_some_iff.mp h
    obtain ⟨rfl, rfl⟩ := Prod.mk.inj heq
    rw [List.cons_append, scan_quoted_body.eq_def]
    simp only [hescape, hc, hd, if_true, List.cons_append, ih hbody, Option.map_some]
    rfl
  case case6 c hescape hc d cs hd =>
    obtain ⟨rfl, rfl⟩ := Prod.mk.inj (Option.some.inj h)
    rw [List.cons_append, scan_quoted_body.eq_def]
    simp only [hescape, hc, hd, if_true, List.cons_append]
    rfl
  case case7 c cs hescape hc ih =>
    obtain ⟨⟨body', behind'⟩, hbody, heq⟩ := Option.map_eq_some_iff.mp h
    obtain ⟨rfl, rfl⟩ := Prod.mk.inj heq
    rw [List.cons_append, scan_quoted_body.eq_def]
    simp only [hescape, hc, ih hbody, Option.map_some]
    rfl

theorem operator_run_append (cs : List Char) :
    operator_run features (cs ++ rest) = operator_run features cs := by
  induction cs with
  | nil =>
    cases rest with
    | nil => rfl
    | cons c rest =>
      have hc : is_operator_char features c = false := not_operator_char c (hends c rfl)
      simp [operator_run, hc]
  | cons c cs ih =>
    rw [List.cons_append, operator_run, operator_run, starts_comment_append hends, ih]

theorem custom_operator_run_append (c : Char) (cs : List Char) :
    custom_operator_run features c (cs ++ rest) = custom_operator_run features c cs := by
  simp only [custom_operator_run, operator_run_append hends]

omit hends in
theorem operator_run_start (cs : List Char) : operator_run features cs <+: cs := by
  induction cs with
  | nil => exact List.prefix_refl _
  | cons c cs ih =>
    rw [operator_run]
    split
    · exact (List.prefix_cons_inj c).mpr ih
    · exact List.nil_prefix

omit hends in
theorem custom_operator_run_start (c : Char) (cs : List Char) :
    custom_operator_run features c cs <+: c :: cs := by
  unfold custom_operator_run
  dsimp only
  split
  · exact (List.prefix_cons_inj c).mpr (operator_run_start cs)
  · exact (List.prefix_cons_inj c).mpr ((List.rdropWhile_prefix _ _).trans (operator_run_start cs))

theorem scan_custom_operator_append {c : Char} {cs : List Char} {op : Operator}
    (h : scan_custom_operator features c cs = (op, [])) :
    scan_custom_operator features c (cs ++ rest) = (op, rest) := by
  have hlength : (custom_operator_run features c cs).length ≤ (c :: cs).length :=
    (custom_operator_run_start c cs).length_le
  have hdrop : ∀ n, cs.drop n = [] → n ≤ cs.length → (cs ++ rest).drop n = rest := by
    intro n hnil hn
    rw [List.drop_append_of_le_length hn, hnil, List.nil_append]
  rw [List.length_cons] at hlength
  unfold scan_custom_operator at h ⊢
  dsimp only at h ⊢
  rw [custom_operator_run_append hends]
  cases hknown : known_operator_token features (custom_operator_run features c cs) with
  | some known =>
    simp only [hknown] at h ⊢
    obtain ⟨rfl, hnil⟩ := Prod.mk.inj h
    rw [hdrop _ hnil (by omega)]
  | none =>
    simp only [hknown] at h ⊢
    split at h
    · rename_i harrow
      obtain ⟨-, rfl⟩ := Prod.mk.inj h
      rw [beq_iff_eq] at harrow
      rw [harrow] at hlength
      simp at hlength
    · rename_i harrow
      obtain ⟨rfl, hnil⟩ := Prod.mk.inj h
      rw [if_neg harrow, hdrop _ hnil (by omega)]

theorem isPrefixOf_append {w : List Char} {op : Operator} (hop : op ∈ known_operators features) :
    op.text.isPrefixOf (w ++ rest) = op.text.isPrefixOf w := by
  rw [Bool.eq_iff_iff, List.isPrefixOf_iff_prefix, List.isPrefixOf_iff_prefix]
  constructor
  · intro h
    rcases List.prefix_or_prefix_of_prefix h (List.prefix_append w rest) with hw | ⟨s, hs⟩
    · exact hw
    · rw [← hs, List.prefix_append_right_inj] at h
      cases s with
      | nil =>
        exact ⟨[], by rw [← hs]; simp⟩
      | cons c s =>
        -- the operator would reach over the delimiter
        have hc : c ∈ delimiters := by
          obtain ⟨behind, rfl⟩ := h
          exact hends c rfl
        have hsymbol := (known_text hop).2 c (by rw [← hs]; simp)
        simp only [delimiters, List.mem_cons, List.not_mem_nil, or_false] at hc
        rcases hc with rfl | rfl | rfl | rfl <;> exact absurd hsymbol (by decide)
  · intro h
    exact h.trans (List.prefix_append w rest)

theorem scan_operator_append {c : Char} {cs : List Char} {t : Token}
    (h : scan_operator features c cs = some (t, [])) :
    scan_operator features c (cs ++ rest) = some (t, rest) := by
  unfold scan_operator at h ⊢
  split at h
  · rename_i hcustom
    rw [if_pos hcustom]
    cases hscan : scan_custom_operator features c cs with
    | mk op behind =>
      rw [hscan] at h
      obtain ⟨rfl, rfl⟩ := Prod.mk.inj (Option.some.inj h)
      rw [scan_custom_operator_append hends hscan]
  · rename_i hcustom
    have hfind : (known_operators features).find? (fun op => op.text.isPrefixOf (c :: (cs ++ rest))) =
        (known_operators features).find? fun op => op.text.isPrefixOf (c :: cs) :=
      List.find?_congr fun op hop => isPrefixOf_append hends (w := c :: cs) hop
    rw [if_neg hcustom, hfind, ← List.cons_append]
    obtain ⟨op, hop, heq⟩ := Option.map_eq_some_iff.mp h
    obtain ⟨rfl, hnil⟩ := Prod.mk.inj heq
    have hfound : op.text.isPrefixOf (c :: cs) = true :=
      List.find?_some (p := fun op : Operator => op.text.isPrefixOf (c :: cs)) hop
    have hle := (List.isPrefixOf_iff_prefix.mp hfound).length_le
    rw [hop, Option.map_some, List.drop_append_of_le_length hle, hnil, List.nil_append]

theorem scan_punctuation_append {c : Char} {cs : List Char} {t : Token}
    (h : scan_punctuation features c cs = some (t, [])) :
    scan_punctuation features c (cs ++ rest) = some (t, rest) := by
  have hhead : ∀ d, d ∉ delimiters →
      ((cs ++ rest).head? == some d) = (cs.head? == some d) := by
    intro d hd
    rw [Bool.eq_iff_iff, beq_iff_eq, beq_iff_eq]
    exact head_append_eq hends hd cs
  unfold scan_punctuation at h
  split at h
  case h_10 =>
    simp only [scan_punctuation, hhead ':' (by decide), hhead '=' (by decide)]
    split at h
    · rename_i hcolon
      obtain ⟨rfl, hnil⟩ := Prod.mk.inj (Option.some.inj h)
      obtain ⟨d, rfl⟩ : ∃ d, cs = [d] := by
        cases cs with
        | nil => simp at hcolon
        | cons d cs => exact ⟨d, by rw [← hnil]; rfl⟩
      have hd : d = ':' := by simpa using hcolon
      simp [hd]
    · rename_i hcolon
      rw [if_neg hcolon]
      split at h
      · rename_i hassign
        obtain ⟨rfl, hnil⟩ := Prod.mk.inj (Option.some.inj h)
        obtain ⟨d, rfl⟩ : ∃ d, cs = [d] := by
          cases cs with
          | nil => simp at hassign
          | cons d cs => exact ⟨d, by rw [← hnil]; rfl⟩
        simp only [Bool.and_eq_true, List.head?_cons, beq_iff_eq, Option.some.injEq] at hassign
        simp [hassign.1, hassign.2]
      · rename_i hassign
        obtain ⟨rfl, rfl⟩ := Prod.mk.inj (Option.some.inj h)
        simp
  case h_11 =>
    split at h
    · rename_i hvariables
      obtain ⟨rfl, rfl⟩ := Prod.mk.inj (Option.some.inj h)
      simp [scan_punctuation, hvariables]
    · cases h
  case h_12 => cases h
  all_goals
    obtain ⟨rfl, rfl⟩ := Prod.mk.inj (Option.some.inj h)
    rfl

theorem skip_trivia_append {c : Char} {cs : List Char} (hplain : c = '/' → cs ≠ ['*'])
    (h : skip_trivia features c cs = some none) :
    skip_trivia features c (cs ++ rest) = some none := by
  have hhead : ∀ d, d ∉ delimiters →
      ((cs ++ rest).head? == some d) = (cs.head? == some d) := by
    intro d hd
    rw [Bool.eq_iff_iff, beq_iff_eq, beq_iff_eq]
    exact head_append_eq hends hd cs
  obtain ⟨hblank, hline, hblock⟩ := skip_trivia_none_iff.mp h
  apply skip_trivia_none_iff.mpr
  rw [hhead '-' (by decide), hhead '*' (by decide)]
  refine ⟨hblank, hline, ?_⟩
  by_contra hopen
  rw [Bool.not_eq_false] at hopen
  simp only [Bool.and_eq_true, beq_iff_eq, Bool.not_eq_true', Bool.and_eq_false_iff] at hopen
  simp only [hopen.1.1, hopen.1.2, beq_self_eq_true, Bool.true_and, Bool.not_eq_false',
    Bool.and_eq_true] at hblock
  -- only the comment opener on its own could turn into a comment
  cases cs with
  | nil => cases hopen.1.2
  | cons d cs =>
    have hd : d = '*' := by simpa using hopen.1.2
    have hcs : cs = [] := List.isEmpty_iff.mp hblock.2
    exact hplain hopen.1.1 (by rw [hd, hcs])

end Lookahead

/-- The opener of a comment that does not end is no token, even where it opens none. -/
theorem scan_comment_opener (hdelimited : Delimited features) {t : Token}
    (htrivia : skip_trivia features '/' ['*'] = some none) :
    scan_token features '/' ['*'] ≠ some (t, []) := by
  intro h
  have heof : features.comment_syntax.unterminated_block_comment_at_eof = true := by
    have hblock := (skip_trivia_none_iff.mp htrivia).2.2
    simpa using hblock
  have hplain : features.operator_syntax.custom_operators = false := by
    by_contra hcustom
    rw [Bool.not_eq_false] at hcustom
    rw [hdelimited.eof hcustom] at heof
    cases heof
  have hquote : opening_identifier_quote features '/' = none := by
    unfold opening_identifier_quote
    rw [Option.map_eq_none_iff, List.find?_eq_none]
    intro style hstyle hslash
    rw [beq_iff_eq] at hslash
    have hopening := hdelimited.opening style hstyle
    rw [hslash] at hopening
    cases hopening
  have hscan : scan_token features '/' ['*'] = scan_operator features '/' ['*'] := by
    have hsigil : opens_sigil features '/' ['*'] = false := rfl
    have hoperator : opens_operator features '/' ['*'] = true := rfl
    have hprefixed : opens_prefixed_string features '/' ['*'] = false := rfl
    have hsingle : (('/' : Char) == single_quote) = false := rfl
    have hdouble : (('/' : Char) == '"') = false := rfl
    have hstart : is_identifier_start '/' = false := rfl
    have hdigit : ('/' : Char).isDigit = false := rfl
    have hdot : (('/' : Char) == '.') = false := rfl
    simp [scan_token, hquote, hsigil, hoperator, hprefixed, hsingle, hdouble, hstart, hdigit, hdot]
  rw [hscan, scan_operator, hplain] at h
  simp only [Bool.false_eq_true, if_false] at h
  obtain ⟨op, hop, heq⟩ := Option.map_eq_some_iff.mp h
  have hknown := known_text (List.mem_of_find?_eq_some hop)
  have hfound : op.text.isPrefixOf ['/', '*'] = true :=
    List.find?_some (p := fun op : Operator => op.text.isPrefixOf ['/', '*']) hop
  obtain ⟨behind, hbehind⟩ := List.isPrefixOf_iff_prefix.mp hfound
  have hnil := (Prod.mk.inj heq).2
  rw [← hbehind, List.drop_left] at hnil
  rw [hnil, List.append_nil] at hbehind
  exact hknown.1 (by simp [hbehind])

/-- A token on its own is the same token in front of a delimiter. -/
theorem scan_token_append (hdelimited : Delimited features) {c : Char} {cs rest : List Char}
    {t : Token} (hends : Ends t rest) (h : scan_token features c cs = some (t, [])) :
    scan_token features c (cs ++ rest) = some (t, rest) := by
  have hhead := hends.head
  have hclose : ∀ close, close ∉ delimiters → rest.head? ≠ some close := by
    intro close hclose heq
    exact hclose (hhead close heq)
  unfold scan_token at h ⊢
  rw [opens_prefixed_string_append hhead, opens_sigil_append hhead, opens_operator_append hhead,
    any_head_append hhead Char.isDigit not_digit]
  split at h
  · cases h
  rename_i hprefixed
  rw [if_neg hprefixed]
  split at h
  · rename_i hquote
    rw [if_pos hquote]
    have hc : rest.head? ≠ some c := by
      apply hclose
      simp only [Bool.or_eq_true, Bool.and_eq_true, beq_iff_eq] at hquote
      rcases hquote with rfl | ⟨rfl, -⟩ <;> decide
    unfold scan_string at h ⊢
    dsimp only at h ⊢
    cases hbody : scan_quoted_body c features.string_literals.backslash_escapes cs with
    | none =>
      rw [hbody] at h
      cases h
    | some read =>
      obtain ⟨body, behind⟩ := read
      rw [hbody] at h
      rw [scan_quoted_body_append hc hbody]
      dsimp only at h ⊢
      split at h
      · cases h
      · rename_i hnul
        obtain ⟨rfl, rfl⟩ := Prod.mk.inj (Option.some.inj h)
        rw [List.nil_append, hends.string _ rfl c, Bool.and_false, Bool.or_false]
        simp only [Bool.or_eq_true, not_or] at hnul
        rw [if_neg hnul.1]
  rename_i hquote
  rw [if_neg hquote]
  cases hident : opening_identifier_quote features c with
  | some close =>
    rw [hident] at h
    have hc : rest.head? ≠ some close := by
      apply hclose
      obtain ⟨style, hstyle, rfl⟩ := Option.map_eq_some_iff.mp hident
      exact hdelimited.closing style (List.mem_of_find?_eq_some hstyle)
    simp only [scan_quoted_ident] at h ⊢
    cases hbody : scan_quoted_body close false cs with
    | none =>
      rw [hbody] at h
      cases h
    | some read =>
      obtain ⟨body, behind⟩ := read
      rw [hbody] at h
      rw [scan_quoted_body_append hc hbody]
      dsimp only at h ⊢
      split at h
      · cases h
      · rename_i hnul
        obtain ⟨rfl, rfl⟩ := Prod.mk.inj (Option.some.inj h)
        rw [if_neg hnul, List.nil_append]
  | none =>
    rw [hident] at h
    dsimp only at h ⊢
    split at h
    · cases h
    rename_i hsigil
    rw [if_neg hsigil]
    split at h
    · rename_i hstart
      rw [if_pos hstart, scan_word_append hhead (Option.some.inj h)]
    rename_i hstart
    rw [if_neg hstart]
    split at h
    · rename_i hnumber
      rw [if_pos hnumber, ← List.cons_append]
      have ht : ∃ text, t = .number text := by
        unfold scan_number at h
        dsimp only at h
        split at h
        · cases h
        · exact ⟨_, (Prod.mk.inj (Option.some.inj h)).1.symm⟩
      obtain ⟨text, rfl⟩ := ht
      exact scan_number_append hhead (hends.number text rfl) h
    rename_i hnumber
    rw [if_neg hnumber]
    split at h
    · rename_i hoperator
      rw [if_pos hoperator]
      exact scan_operator_append hhead h
    · rename_i hoperator
      rw [if_neg hoperator]
      exact scan_punctuation_append hhead h

/-- The text of a token in front of a delimiter is that token, then the rest. -/
theorem tokenize_spelled (hdelimited : Delimited features) {w rest : List Char} {t : Token}
    (hspelled : Spelled features w t) (hends : Ends t rest) :
    tokenize features (w ++ rest) = (tokenize features rest).map (t :: ·) := by
  obtain ⟨c, cs, rfl, htrivia, hscan⟩ := hspelled
  apply tokenize_of_scan _ (scan_token_append hdelimited hends hscan)
  apply skip_trivia_append hends.head _ htrivia
  rintro rfl rfl
  exact scan_comment_opener hdelimited htrivia hscan

end squonk.tokenizer
