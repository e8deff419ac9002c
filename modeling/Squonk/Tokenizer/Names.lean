import Squonk.Tokenizer.Spelling

/-!
# Names and counts in front of marks

A name that some source has is read back from its text where a blank, a parenthesis, a comma, a
quantifier or a brace stands behind it, and so is a run of digits.
-/

open squonk.ast squonk.dialect

namespace squonk.tokenizer

def Token.is_name : Token → Bool
  | .word _ | .quoted_ident _ | .keyword _ => true
  | _ => false

/-- The delimiters of names that the parser can take off again. -/
def name_quotes : List (Char × Char) := [('"', '"'), (Char.ofNat 96, Char.ofNat 96), ('[', ']')]

/-- The marks that may stand behind a name. -/
def marks : List Char := [' ', '(', ')', ',', '*', '+', '{', '}']

variable {features : FeatureSet}

theorem marks_plain : ∀ c ∈ marks, is_identifier_continue features c = false ∧
    c ≠ single_quote ∧ c ≠ '"' ∧ c ≠ '&' ∧ ∀ style ∈ name_quotes, c ≠ style.2 := by
  intro c hc
  simp only [marks, List.mem_cons, List.not_mem_nil, or_false] at hc
  obtain rfl | rfl | rfl | rfl | rfl | rfl | rfl | rfl := hc
  all_goals
    refine ⟨?_, by decide, by decide, by decide, by decide⟩
    simp [is_identifier_continue, is_identifier_start]

/-- What holds of characters in a list is decided over the list, not over every character. -/
theorem forall_mem_of_all {l : List Char} {p : Char → Prop} [DecidablePred p]
    (h : l.all (fun c => p c) = true) : ∀ c ∈ l, p c :=
  fun c hc => of_decide_eq_true (List.all_eq_true.mp h c hc)

theorem lead_ne {p : Char → Bool} {c d : Char} (hc : p c = true) (hd : p d = false) :
    (c == d) = false := by
  rw [beq_eq_false_iff_ne]
  rintro rfl
  rw [hc] at hd
  cases hd

/-- The characters that blanks and comments start with. -/
def trivia_leads : List Char := [' ', '\t', '\n', '\r', Char.ofNat 12, '-', '#', '/']

theorem skip_trivia_of_lead {p : Char → Bool} {c : Char} (hc : p c = true)
    (hp : ∀ d ∈ trivia_leads, p d = false) (cs : List Char) :
    skip_trivia features c cs = some none := by
  have hplain : ∀ d ∈ trivia_leads, (c == d) = false := fun d hd => lead_ne hc (hp d hd)
  simp only [trivia_leads, List.forall_mem_cons] at hplain
  obtain ⟨hblank, htab, hline, hreturn, hfeed, hminus, hhash, hslash, _⟩ := hplain
  refine skip_trivia_none_iff.mpr ⟨?_, ?_, ?_⟩
  · simp only [is_whitespace, hblank, htab, hline, hreturn, hfeed, Bool.or_self]
  · simp only [hminus, hhash, Bool.false_and, Bool.or_self]
  · simp only [hslash, Bool.false_and]

theorem opening_quote_none_of_lead {p : Char → Bool} {c : Char} (hc : p c = true)
    (hp : ∀ style ∈ features.identifier_quotes, p style.1 = false) :
    opening_identifier_quote features c = none := by
  unfold opening_identifier_quote
  rw [Option.map_eq_none_iff, List.find?_eq_none]
  intro style hstyle hopen
  have hplain := lead_ne hc (hp style hstyle)
  rw [beq_iff_eq] at hopen
  rw [hopen, beq_self_eq_true] at hplain
  cases hplain

section
variable {rest : List Char} (hrest : ∀ c, rest.head? = some c → c ∈ marks)
include hrest

/-- Digits are a number of their own in front of a mark. -/
theorem tokenize_count
    (hquotes : ∀ style ∈ features.identifier_quotes, style.1.isDigit = false)
    {text : List Char} (hne : text ≠ []) (hdigits : ∀ c ∈ text, c.isDigit = true) :
    tokenize features (text ++ rest) = (tokenize features rest).map (.number text :: ·) := by
  obtain ⟨c, cs, rfl⟩ : ∃ c cs, text = c :: cs := List.exists_cons_of_ne_nil hne
  have hc := hdigits c (.head _)
  have hstart : is_identifier_start c = false := by
    have hletter : c.isAlpha = false := by
      simp only [Char.isAlpha, Char.isUpper, Char.isLower, Char.isDigit, ge_iff_le,
        UInt32.le_iff_toNat_le, Bool.and_eq_true, decide_eq_true_eq, Bool.or_eq_false_iff,
        Bool.and_eq_false_iff, decide_eq_false_iff_not] at hc ⊢
      have hvalues : '0'.val.toNat = 48 ∧ '9'.val.toNat = 57 ∧ 'A'.val.toNat = 65 ∧
          'Z'.val.toNat = 90 ∧ 'a'.val.toNat = 97 ∧ 'z'.val.toNat = 122 := by decide
      omega
    rw [is_identifier_start, lead_ne hc rfl, hletter]
    rfl
  have hsigil : opens_sigil features c (cs ++ rest) = false := by
    unfold opens_sigil
    split
    all_goals first
      | rfl
      | cases hc
  have hstop : rest.takeWhile Char.isDigit = [] ∧ rest.dropWhile Char.isDigit = rest := by
    cases rest with
    | nil => exact ⟨rfl, rfl⟩
    | cons d rest =>
      have hmark : ∀ d ∈ marks, d.isDigit = false := forall_mem_of_all (by decide)
      have hd := hmark d (hrest d rfl)
      rw [List.takeWhile_cons_of_neg (by simp [hd]), List.dropWhile_cons_of_neg (by simp [hd])]
      exact ⟨rfl, rfl⟩
  have htake : (c :: cs ++ rest).takeWhile Char.isDigit = c :: cs := by
    rw [List.takeWhile_append_of_pos hdigits, hstop.1, List.append_nil]
  have hdrop : (c :: cs ++ rest).dropWhile Char.isDigit = rest := by
    rw [List.dropWhile_append_of_pos hdigits, hstop.2]
  apply tokenize_of_scan
  · exact skip_trivia_of_lead hc (forall_mem_of_all (by decide)) _
  · have hquote := opening_quote_none_of_lead hc hquotes
    have hnumber : scan_number (c :: (cs ++ rest)) = some (.number (c :: cs), rest) := by
      have hplain' : ∀ ds, (c :: cs ++ rest).dropWhile Char.isDigit ≠ '.' :: ds := by
        rw [hdrop]
        rintro ds rfl
        exact absurd (hrest '.' rfl) (by decide)
      have hend : rest.head?.any is_identifier_start = false := by
        have hmark : ∀ d ∈ marks, is_identifier_start d = false := forall_mem_of_all (by decide)
        cases rest with
        | nil => rfl
        | cons d rest => exact hmark d (hrest d rfl)
      change scan_number (c :: cs ++ rest) = _
      unfold scan_number
      rw [eat_fixed_point_plain hplain', htake, hdrop]
      dsimp only
      rw [hend, if_neg Bool.false_ne_true]
    change scan_token features c (cs ++ rest) = _
    unfold scan_token
    rw [not_prefixed_of_not_start hstart, hquote, hstart, hsigil, hc,
      lead_ne (d := single_quote) hc rfl, lead_ne (d := '"') hc rfl, hnumber]
    rfl

theorem scan_word_in_front {c : Char} {cs : List Char} {t : Token}
    (hcs : ∀ d ∈ cs, is_identifier_continue features d = true)
    (ht : scan_word features c cs = (t, [])) : scan_word features c (cs ++ rest) = (t, rest) := by
  have hstop : rest.takeWhile (is_identifier_continue features) = [] ∧
      rest.dropWhile (is_identifier_continue features) = rest := by
    cases rest with
    | nil => exact ⟨rfl, rfl⟩
    | cons d rest =>
      have hd : is_identifier_continue features d = false :=
        (@marks_plain features d (hrest d rfl)).1
      rw [List.takeWhile_cons_of_neg (by simp [hd]), List.dropWhile_cons_of_neg (by simp [hd])]
      exact ⟨rfl, rfl⟩
  have htake : (cs ++ rest).takeWhile (is_identifier_continue features) = cs := by
    rw [List.takeWhile_append_of_pos hcs, hstop.1, List.append_nil]
  have hdrop : (cs ++ rest).dropWhile (is_identifier_continue features) = rest := by
    rw [List.dropWhile_append_of_pos hcs, hstop.2]
  have hself := scan_word_self (c := c) hcs
  rw [ht] at hself
  obtain ⟨rfl, _⟩ := Prod.mk.inj hself
  unfold scan_word
  dsimp only
  rw [htake, hdrop]
  cases lookup_keyword (c :: cs) <;> rfl

/-- A name in front of a mark is no marker of a string. -/
theorem not_prefixed_in_front {c : Char} {cs : List Char}
    (hcs : ∀ d ∈ cs, is_identifier_continue features d = true) :
    opens_prefixed_string features c (cs ++ rest) = false := by
  have hother (d : Char) (hd : is_identifier_continue features d = false) (hmark : d ∉ marks) :
      ((cs ++ rest).head? == some d) = false := by
    rw [beq_eq_false_iff_ne]
    intro hhead
    cases cs with
    | nil => exact hmark (hrest d hhead)
    | cons e cs =>
      have he := hcs e (.head _)
      rw [Option.some.inj hhead, hd] at he
      cases he
  have hsingle := hother single_quote
    (by simp [is_identifier_continue, is_identifier_start, single_quote, Char.isAlpha,
      Char.isUpper, Char.isLower, Char.isDigit]) (by decide)
  have hamp := hother '&'
    (by simp [is_identifier_continue, is_identifier_start, Char.isAlpha, Char.isUpper,
      Char.isLower, Char.isDigit]) (by decide)
  have hbehind (d : Char) (hmark : d ∉ marks) :
      (((cs ++ rest).dropWhile (is_identifier_continue features)).head? == some d) = false := by
    rw [List.dropWhile_append_of_pos hcs, beq_eq_false_iff_ne]
    intro hhead
    cases rest with
    | nil => cases hhead
    | cons e rest =>
      have he : is_identifier_continue features e = false :=
        (@marks_plain features e (hrest e rfl)).1
      rw [List.dropWhile_cons_of_neg (by simp [he])] at hhead
      exact hmark (hrest d hhead)
  unfold opens_prefixed_string
  simp only [hsingle, hamp, hbehind single_quote (by decide), hbehind '"' (by decide),
    Bool.and_false, Bool.false_and, Bool.or_self]
  split
  all_goals rfl

/-- A bare name is read back in front of a mark. -/
theorem tokenize_bare_name
    (hstart : ∀ style ∈ features.identifier_quotes, is_identifier_start style.1 = false)
    {c : Char} {cs : List Char} {t : Token} (hc : is_identifier_start c = true)
    (hcs : ∀ d ∈ cs, is_identifier_continue features d = true)
    (ht : scan_word features c cs = (t, [])) :
    tokenize features (c :: (cs ++ rest)) = (tokenize features rest).map (t :: ·) := by
  apply tokenize_of_scan
  · exact skip_trivia_of_lead hc (forall_mem_of_all (by decide)) _
  · have hquote := opening_quote_none_of_lead hc hstart
    unfold scan_token
    rw [not_prefixed_in_front hrest hcs, not_sigil_of_start hc, hquote, hc,
      lead_ne (d := single_quote) hc rfl, lead_ne (d := '"') hc rfl, scan_word_in_front hrest hcs ht]
    rfl

/-- A name that some source has, in front of a mark. -/
theorem tokenize_name (hquotes : features.identifier_quotes ⊆ name_quotes) {t : Token}
    (hname : t.is_name = true) (hscanned : Scanned features t) :
    tokenize features (t.text ++ rest) = (tokenize features rest).map (t :: ·) := by
  have hstart : ∀ style ∈ features.identifier_quotes, is_identifier_start style.1 = false := by
    have hall : ∀ style ∈ name_quotes, is_identifier_start style.1 = false := by decide
    exact fun style hstyle => hall style (hquotes hstyle)
  obtain ⟨c, cs, behind, htrivia, hscan⟩ := hscanned
  unfold scan_token at hscan
  split at hscan
  · cases hscan
  split at hscan
  · rename_i hquote
    unfold scan_string at hscan
    dsimp only at hscan
    split at hscan
    · cases hscan
    split at hscan
    · cases hscan
    · obtain ⟨rfl, _⟩ := Prod.mk.inj (Option.some.inj hscan)
      cases hname
  rename_i hquote
  split at hscan
  · -- a quoted name
    rename_i close hident
    unfold scan_quoted_ident at hscan
    split at hscan
    · cases hscan
    rename_i body behind hbody
    split at hscan
    · cases hscan
    rename_i hnul
    obtain ⟨rfl, rfl⟩ := Prod.mk.inj (Option.some.inj hscan)
    obtain ⟨style, hstyle, hclose⟩ := Option.map_eq_some_iff.mp hident
    have hc : style.1 = c := by
      have hfound := List.find?_some (p := fun style : Char × Char => style.1 == c) hstyle
      simpa using hfound
    have hmem := hquotes (List.mem_of_find?_eq_some hstyle)
    have hfront : rest.head? ≠ some close := by
      intro hhead
      rw [← hclose] at hhead
      exact (@marks_plain features _ (hrest _ hhead)).2.2.2.2 style hmem rfl
    have hplain : ∀ style ∈ name_quotes, is_whitespace style.1 = false ∧
        (style.1 == '-' || style.1 == '#' || style.1 == '/') = false := by decide
    obtain ⟨hblank, hcomment⟩ := hplain style hmem
    rw [hc] at hblank hcomment
    rw [Bool.or_eq_false_iff, Bool.or_eq_false_iff] at hcomment
    obtain ⟨⟨hminus, hhash⟩, hslash⟩ := hcomment
    apply tokenize_of_scan
    · exact skip_trivia_none_iff.mpr
        ⟨hblank, by rw [hminus, hhash]; rfl, by rw [hslash]; rfl⟩
    · have hopens : is_identifier_start c = false := by
        rw [← hc]
        exact hstart style (List.mem_of_find?_eq_some hstyle)
      have hagain : scan_quoted_body close false (body ++ rest) = some (body, rest) :=
        scan_quoted_body_append hfront (scan_quoted_body_self hbody)
      change scan_token features c (body ++ rest) = _
      unfold scan_token
      rw [not_prefixed_of_not_start hopens, if_neg Bool.false_ne_true, if_neg hquote, hident]
      simp only [scan_quoted_ident, hagain]
      rw [if_neg hnul]
  split at hscan
  · cases hscan
  split at hscan
  · -- a bare name
    rename_i hfirst
    have hword := Option.some.inj hscan
    have hcont : ∀ d ∈ cs.takeWhile (is_identifier_continue features),
        is_identifier_continue features d = true := fun d => List.mem_takeWhile_imp
    unfold scan_word at hword
    dsimp only at hword
    split at hword
    · rename_i keyword hlookup
      obtain ⟨rfl, _⟩ := Prod.mk.inj hword
      have hreads := (keyword_reads keyword (Keyword.mem_all keyword)).1
      cases htext : keyword.as_str.toList with
      | nil =>
        rw [htext] at hreads
        cases hreads
      | cons d ds =>
        rw [htext] at hreads
        simp only [reads_as, Bool.and_eq_true, beq_iff_eq, List.all_eq_true] at hreads
        have hds : ∀ e ∈ ds, is_identifier_continue features e = true := by
          intro e he
          rw [is_identifier_continue, hreads.1.2 e he, Bool.true_or]
        rw [Token.text, htext]
        exact tokenize_bare_name hrest hstart hreads.1.1 hds
          (by rw [scan_word_self hds, hreads.2]; rfl)
    · rename_i hlookup
      obtain ⟨rfl, _⟩ := Prod.mk.inj hword
      exact tokenize_bare_name hrest hstart hfirst hcont
        (by rw [scan_word_self hcont, hlookup]; rfl)
  -- the other tokens are no names
  exfalso
  split at hscan
  · unfold scan_number at hscan
    dsimp only at hscan
    split at hscan
    · cases hscan
    · obtain ⟨rfl, _⟩ := Prod.mk.inj (Option.some.inj hscan)
      cases hname
  split at hscan
  · obtain ⟨op, tail, rfl, _⟩ := scan_operator_self hscan
    cases hname
  · unfold scan_punctuation at hscan
    split at hscan
    case h_10 =>
      split at hscan
      · obtain ⟨rfl, _⟩ := Prod.mk.inj (Option.some.inj hscan)
        cases hname
      split at hscan
      all_goals
        obtain ⟨rfl, _⟩ := Prod.mk.inj (Option.some.inj hscan)
        cases hname
    case h_11 =>
      split at hscan
      · obtain ⟨rfl, _⟩ := Prod.mk.inj (Option.some.inj hscan)
        cases hname
      · cases hscan
    case h_12 => cases hscan
    all_goals
      obtain ⟨rfl, _⟩ := Prod.mk.inj (Option.some.inj hscan)
      cases hname

end

end squonk.tokenizer
