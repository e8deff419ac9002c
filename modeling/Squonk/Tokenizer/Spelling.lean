import Mathlib
import Squonk.Tokenizer.Spacing

/-!
# The text of a token

What the scanner read as a token is that token again when its text stands alone. A keyword's
text is the keyword in either case.
-/

open squonk.ast squonk.dialect

namespace squonk.tokenizer

variable {features : FeatureSet}

/-- The text of a token; a keyword has lost the case it was written in. -/
def Token.text : Token → List Char
  | .word text | .quoted_ident text | .number text | .string text | .parameter text => text
  | .keyword k => k.as_str.toList
  | .operator op => op.text
  | .punctuation _ => []

/-- A token that some source has. -/
def Scanned (features : FeatureSet) (t : Token) : Prop :=
  ∃ c cs rest, skip_trivia features c cs = some none ∧ scan_token features c cs = some (t, rest)

theorem scanned_of_tokenize {source : List Char} {ts : List Token}
    (h : tokenize features source = some ts) : ∀ t ∈ ts, Scanned features t := by
  unfold tokenize at h
  generalize source.length + 1 = n at h
  induction n generalizing source ts with
  | zero => cases h
  | succ n ih =>
    cases source with
    | nil =>
      obtain rfl := Option.some.inj h
      intro t ht
      cases ht
    | cons c cs =>
      simp only [next_tokens] at h
      split at h
      · cases h
      · exact ih h
      · rename_i htrivia
        split at h
        · cases h
        · rename_i token rest hscan
          obtain ⟨ts', hrest, rfl⟩ := Option.map_eq_some_iff.mp h
          intro t ht
          rcases List.mem_cons.mp ht with rfl | ht
          · exact ⟨c, cs, rest, htrivia, hscan⟩
          · exact ih hrest t ht

/-! ## Words -/

theorem toLower_of_not_start {c : Char} (hc : is_identifier_start c = false) : c.toLower = c := by
  unfold Char.toLower
  rw [dif_neg]
  intro hupper
  have hstart : is_identifier_start c = true := by
    simp only [is_identifier_start, Char.isAlpha, Char.isUpper, Bool.or_eq_true, decide_eq_true_eq]
    exact Or.inr (Or.inl hupper)
  rw [hc] at hstart
  cases hstart

/-- Only a name can be the marker of a string. -/
theorem not_prefixed_of_not_start {c : Char} (hc : is_identifier_start c = false)
    (cs : List Char) : opens_prefixed_string features c cs = false := by
  unfold opens_prefixed_string
  rw [toLower_of_not_start hc]
  dsimp only
  split
  case h_7 => rfl
  all_goals cases hc

/-- A name is no marker where nothing follows it. -/
theorem not_prefixed_of_word {c : Char} {cs : List Char}
    (hcs : ∀ d ∈ cs, is_identifier_continue features d = true) :
    opens_prefixed_string features c cs = false := by
  have hquote : ∀ d, is_identifier_continue features d = false → (cs.head? == some d) = false := by
    intro d hd
    rw [beq_eq_false_iff_ne]
    intro hhead
    have hmem : d ∈ cs := List.mem_of_mem_head? (by rw [hhead]; rfl)
    rw [hcs d hmem] at hd
    cases hd
  have hsingle := hquote single_quote (by simp [is_identifier_continue, is_identifier_start,
    single_quote, Char.isAlpha, Char.isUpper, Char.isLower, Char.isDigit])
  have hamp := hquote '&' (by simp [is_identifier_continue, is_identifier_start,
    Char.isAlpha, Char.isUpper, Char.isLower, Char.isDigit])
  have hbehind : cs.dropWhile (is_identifier_continue features) = [] :=
    List.dropWhile_eq_nil_iff.mpr hcs
  unfold opens_prefixed_string
  simp only [hsingle, hamp, hbehind, Bool.and_false, Bool.false_and, List.head?_nil]
  split
  case h_6 => simp
  all_goals rfl

theorem not_sigil_of_start {c : Char} (hc : is_identifier_start c = true) (cs : List Char) :
    opens_sigil features c cs = false := by
  unfold opens_sigil
  dsimp only
  split
  case h_6 => rfl
  all_goals cases hc

theorem spelled_word (hdelimited : Delimited features) {c : Char} {cs : List Char} {t : Token}
    (hc : is_identifier_start c = true) (hcs : ∀ d ∈ cs, is_identifier_continue features d = true)
    (ht : scan_word features c cs = (t, [])) : Spelled features (c :: cs) t := by
  have hplain : ∀ d, is_identifier_start d = false → (c == d) = false := by
    intro d hd
    rw [beq_eq_false_iff_ne]
    rintro rfl
    rw [hc] at hd
    cases hd
  refine ⟨c, cs, rfl, skip_trivia_none_iff.mpr ⟨?_, ?_, ?_⟩, ?_⟩
  · simp only [is_whitespace, hplain ' ' rfl, hplain '\t' rfl, hplain '\n' rfl, hplain '\r' rfl,
      hplain (Char.ofNat 12) rfl, Bool.or_self]
  · simp only [hplain '-' rfl, hplain '#' rfl, Bool.false_and, Bool.or_self]
  · simp only [hplain '/' rfl, Bool.false_and]
  · have hquote : opening_identifier_quote features c = none := by
      unfold opening_identifier_quote
      rw [Option.map_eq_none_iff, List.find?_eq_none]
      intro style hstyle hopen
      rw [beq_iff_eq] at hopen
      have hstart := hdelimited.opening_start style hstyle
      rw [hopen, hc] at hstart
      cases hstart
    unfold scan_token
    rw [not_prefixed_of_word hcs, not_sigil_of_start hc, hquote, hc, hplain single_quote rfl,
      hplain '"' rfl, ht]
    rfl

theorem scan_word_self {c : Char} {cs : List Char}
    (hcs : ∀ d ∈ cs, is_identifier_continue features d = true) :
    scan_word features c cs =
      (((lookup_keyword (c :: cs)).map Token.keyword).getD (.word (c :: cs)), []) := by
  have htake : cs.takeWhile (is_identifier_continue features) = cs :=
    List.takeWhile_eq_self_iff.mpr hcs
  have hdrop : cs.dropWhile (is_identifier_continue features) = [] :=
    List.dropWhile_eq_nil_iff.mpr hcs
  unfold scan_word
  dsimp only
  rw [htake, hdrop]
  cases lookup_keyword (c :: cs) <;> rfl

/-- The text of a keyword in capitals. -/
def Keyword.capitals (k : Keyword) : List Char := k.as_str.toList.map Char.toUpper

/-- Whether a text reads as the keyword `k` in every dialect. -/
def reads_as (k : Keyword) : List Char → Bool
  | [] => false
  | c :: cs => is_identifier_start c && cs.all (fun d => is_identifier_start d || d.isDigit) &&
    lookup_keyword (c :: cs) == some k

/-- Whether a word in lower case is an identifier in either case. -/
def is_lower_word (word : List Char) : Bool :=
  [word, word.map Char.toUpper].all fun text =>
    text.map Char.toLower == word && text.head?.any is_identifier_start &&
      text.tail.all fun c => is_identifier_start c || c.isDigit

/-- A number for a word. Words with different numbers are different. -/
def code_of (word : List Char) : Nat := word.foldl (fun n c => 128 * n + c.toNat) 0

/-- Whether numbers are distinct, and the bits of `seen` at their places are clear. -/
def distinct (seen : Nat) : List Nat → Bool
  | [] => true
  | n :: ns => !seen.testBit n && distinct (seen ||| 2 ^ n) ns

theorem distinct_spec {seen : Nat} {ns : List Nat} (h : distinct seen ns = true) :
    (∀ n ∈ ns, seen.testBit n = false) ∧ ns.Nodup := by
  induction ns generalizing seen with
  | nil => exact ⟨List.forall_mem_nil _, List.nodup_nil⟩
  | cons n ns ih =>
    rw [distinct, Bool.and_eq_true, Bool.not_eq_true'] at h
    obtain ⟨hclear, hnodup⟩ := ih h.2
    simp only [Nat.testBit_or, Nat.testBit_two_pow, Bool.or_eq_false_iff,
      decide_eq_false_iff_not] at hclear
    exact ⟨List.forall_mem_cons.mpr ⟨h.1, fun m hm => (hclear m hm).1⟩,
      List.nodup_cons.mpr ⟨fun hmem => (hclear n hmem).2 rfl, hnodup⟩⟩

/-- The numbers of the keywords differ by this divisor already. -/
theorem letters_distinct :
    distinct 0 (Keyword.letters.val.map fun word => code_of word % 938) = true := by
  decide +kernel

theorem keyword_words : (Keyword.all.map fun k => k.as_str.toList).Nodup ∧
    ∀ k : Keyword, is_lower_word k.as_str.toList = true := by
  have hmap : (Keyword.all.map fun k => k.as_str.toList) = Keyword.letters.val := by
    rw [← Keyword.letters.property.map_toList, List.map_map]
    rfl
  have hlower : ∀ word ∈ Keyword.letters.val, is_lower_word word = true := by decide +kernel
  rw [hmap]
  exact ⟨(distinct_spec letters_distinct).2.of_map, fun k => hlower _ k.mem_letters⟩

/-- A text whose letters are those of no keyword is none. -/
theorem lookup_keyword_none {text : List Char}
    (h : text.map Char.toLower ∉ Keyword.letters.val) : lookup_keyword text = none := by
  rw [lookup_keyword, List.find?_eq_none]
  intro k _ hsame
  exact h (beq_iff_eq.mp hsame ▸ k.mem_letters)

/-- No keyword is one letter. -/
theorem lookup_keyword_letter (c : Char) : lookup_keyword [c] = none := by
  have hlong : ∀ word ∈ Keyword.letters.val, 1 < word.length := by decide +kernel
  exact lookup_keyword_none fun hmem => absurd (hlong _ hmem) (Nat.lt_irrefl 1)

/-- No two keywords have one text. -/
theorem lookup_keyword_text {k : Keyword} {text : List Char}
    (h : text.map Char.toLower = k.as_str.toList) : lookup_keyword text = some k := by
  rw [lookup_keyword, h]
  cases hfind : Keyword.all.find? fun k' => k'.as_str.toList == k.as_str.toList with
  | none =>
    have hne := List.find?_eq_none.mp hfind k (Keyword.mem_all k)
    exact absurd (beq_self_eq_true _) hne
  | some k' =>
    have htest := List.find?_some hfind
    have heq : k'.as_str.toList = k.as_str.toList := beq_iff_eq.mp htest
    have hsame := List.inj_on_of_nodup_map keyword_words.1 (Keyword.mem_all k')
      (Keyword.mem_all k) heq
    rw [hsame]

theorem spelled_letter (hdelimited : Delimited features) {c : Char}
    (hc : is_identifier_start c = true) : Spelled features [c] (.word [c]) := by
  apply spelled_word hdelimited hc (List.forall_mem_nil _)
  rw [scan_word_self (List.forall_mem_nil _), lookup_keyword_letter]
  rfl

theorem keyword_reads : ∀ k ∈ Keyword.all, reads_as k k.as_str.toList = true ∧
    reads_as k k.capitals = true := by
  intro k hk
  have hreads : ∀ text ∈ [k.as_str.toList, k.as_str.toList.map Char.toUpper],
      reads_as k text = true := by
    intro text htext
    have hword := List.all_eq_true.mp (keyword_words.2 k) text htext
    rw [Bool.and_eq_true, Bool.and_eq_true, beq_iff_eq] at hword
    obtain ⟨⟨hlower, hhead⟩, htail⟩ := hword
    cases text with
    | nil => cases hhead
    | cons c cs =>
      rw [reads_as, Bool.and_eq_true, Bool.and_eq_true, lookup_keyword_text hlower]
      exact ⟨⟨hhead, htail⟩, beq_self_eq_true _⟩
  exact ⟨hreads _ List.mem_cons_self, hreads _ (List.mem_cons_of_mem _ List.mem_cons_self)⟩

theorem spelled_of_reads (hdelimited : Delimited features) {k : Keyword} {text : List Char}
    (h : reads_as k text = true) : Spelled features text (.keyword k) := by
  cases text with
  | nil => cases h
  | cons c cs =>
    simp only [reads_as, Bool.and_eq_true, beq_iff_eq, List.all_eq_true] at h
    have hcs : ∀ d ∈ cs, is_identifier_continue features d = true := by
      intro d hd
      rw [is_identifier_continue, h.1.2 d hd, Bool.true_or]
    exact spelled_word hdelimited h.1.1 hcs (by rw [scan_word_self hcs, h.2]; rfl)

theorem spelled_keyword (hdelimited : Delimited features) (k : Keyword) :
    Spelled features k.as_str.toList (.keyword k) :=
  spelled_of_reads hdelimited (keyword_reads k (Keyword.mem_all k)).1

theorem spelled_capitals (hdelimited : Delimited features) (k : Keyword) :
    Spelled features k.capitals (.keyword k) :=
  spelled_of_reads hdelimited (keyword_reads k (Keyword.mem_all k)).2

/-! ## Numbers -/

theorem eat_fixed_point_dot {cs ds : List Char} (h : cs.dropWhile Char.isDigit = '.' :: ds) :
    eat_fixed_point cs =
      (cs.takeWhile Char.isDigit ++ '.' :: ds.takeWhile Char.isDigit, ds.dropWhile Char.isDigit) := by
  unfold eat_fixed_point
  rw [h]
  rfl

theorem eat_fixed_point_plain {cs : List Char} (h : ∀ ds, cs.dropWhile Char.isDigit ≠ '.' :: ds) :
    eat_fixed_point cs = (cs.takeWhile Char.isDigit, cs.dropWhile Char.isDigit) := by
  unfold eat_fixed_point
  split
  · rename_i ds heq
    exact absurd heq (h ds)
  · rfl

theorem eat_fixed_point_self (cs : List Char) :
    eat_fixed_point (eat_fixed_point cs).1 = ((eat_fixed_point cs).1, []) := by
  have hdigits : ∀ cs : List Char, (cs.takeWhile Char.isDigit).takeWhile Char.isDigit =
      cs.takeWhile Char.isDigit ∧ (cs.takeWhile Char.isDigit).dropWhile Char.isDigit = [] := by
    intro cs
    have hall : ∀ c ∈ cs.takeWhile Char.isDigit, c.isDigit = true := fun c => List.mem_takeWhile_imp
    exact ⟨List.takeWhile_eq_self_iff.mpr hall, List.dropWhile_eq_nil_iff.mpr hall⟩
  by_cases hdot : ∃ ds, cs.dropWhile Char.isDigit = '.' :: ds
  · obtain ⟨ds, hds⟩ := hdot
    have hstop : ('.' : Char).isDigit = false := rfl
    have htake : (cs.takeWhile Char.isDigit ++ '.' :: ds.takeWhile Char.isDigit).takeWhile
        Char.isDigit = cs.takeWhile Char.isDigit := by
      rw [List.takeWhile_append, (hdigits cs).1, if_pos rfl,
        List.takeWhile_cons_of_neg (by simp [hstop]), List.append_nil]
    have hdrop : (cs.takeWhile Char.isDigit ++ '.' :: ds.takeWhile Char.isDigit).dropWhile
        Char.isDigit = '.' :: ds.takeWhile Char.isDigit := by
      rw [List.dropWhile_append, (hdigits cs).2]
      simp [hstop]
    rw [eat_fixed_point_dot hds, eat_fixed_point_dot hdrop, htake, (hdigits ds).1, (hdigits ds).2]
  · rw [not_exists] at hdot
    rw [eat_fixed_point_plain hdot]
    have hnil : ∀ ds, (cs.takeWhile Char.isDigit).dropWhile Char.isDigit ≠ '.' :: ds := by
      intro ds
      rw [(hdigits cs).2]
      exact fun h => by cases h
    rw [eat_fixed_point_plain hnil, (hdigits cs).1, (hdigits cs).2]

theorem eat_fixed_point_append (cs : List Char) :
    (eat_fixed_point cs).1 ++ (eat_fixed_point cs).2 = cs := by
  by_cases hdot : ∃ ds, cs.dropWhile Char.isDigit = '.' :: ds
  · obtain ⟨ds, hds⟩ := hdot
    rw [eat_fixed_point_dot hds, List.append_assoc, List.cons_append,
      List.takeWhile_append_dropWhile, ← hds, List.takeWhile_append_dropWhile]
  · rw [eat_fixed_point_plain (not_exists.mp hdot), List.takeWhile_append_dropWhile]

/-- A number on its own is that number. -/
theorem scan_number_self {cs rest : List Char} {t : Token} (h : scan_number cs = some (t, rest)) :
    t = .number (eat_fixed_point cs).1 ∧ scan_number (eat_fixed_point cs).1 = some (t, []) := by
  unfold scan_number at h ⊢
  dsimp only at h ⊢
  split at h
  · cases h
  · obtain ⟨rfl, -⟩ := Prod.mk.inj (Option.some.inj h)
    rw [eat_fixed_point_self]
    exact ⟨rfl, rfl⟩

/-- The text of a number starts where the number does, and starts a number. -/
theorem number_text_cons {c : Char} {cs : List Char}
    (hstart : (c.isDigit || c == '.' && cs.head?.any Char.isDigit) = true) :
    ∃ cs', (eat_fixed_point (c :: cs)).1 = c :: cs' ∧
      (c.isDigit || c == '.' && cs'.head?.any Char.isDigit) = true := by
  by_cases hdigit : c.isDigit = true
  · have htake : (c :: cs).takeWhile Char.isDigit = c :: cs.takeWhile Char.isDigit :=
      List.takeWhile_cons_of_pos hdigit
    by_cases hdot : ∃ ds, (c :: cs).dropWhile Char.isDigit = '.' :: ds
    · obtain ⟨ds, hds⟩ := hdot
      rw [eat_fixed_point_dot hds, htake]
      exact ⟨_, rfl, by rw [hdigit]; rfl⟩
    · rw [eat_fixed_point_plain (not_exists.mp hdot), htake]
      exact ⟨_, rfl, by rw [hdigit]; rfl⟩
  · simp only [hdigit, Bool.false_or, Bool.and_eq_true, beq_iff_eq] at hstart
    obtain ⟨rfl, hhead⟩ := hstart
    have hdrop : ('.' :: cs).dropWhile Char.isDigit = '.' :: cs :=
      List.dropWhile_cons_of_neg hdigit
    rw [eat_fixed_point_dot hdrop, List.takeWhile_cons_of_neg hdigit]
    refine ⟨_, rfl, ?_⟩
    cases cs with
    | nil => cases hhead
    | cons d cs =>
      have hd : d.isDigit = true := by simpa using hhead
      simp [hd]

/-! ## Quoted text -/

theorem scan_quoted_body_self {close : Char} {escapes : Bool} {cs body rest : List Char}
    (h : scan_quoted_body close escapes cs = some (body, rest)) :
    scan_quoted_body close escapes body = some (body, []) := by
  fun_induction scan_quoted_body close escapes cs generalizing body
  case case1 => cases h
  case case2 => cases h
  case case3 c hescape d cs ih =>
    obtain ⟨⟨body', behind'⟩, hbody, heq⟩ := Option.map_eq_some_iff.mp h
    obtain ⟨rfl, rfl⟩ := Prod.mk.inj heq
    rw [scan_quoted_body.eq_def]
    simp only [hescape, if_true, ih hbody, Option.map_some]
  case case4 c hescape hc =>
    obtain ⟨rfl, rfl⟩ := Prod.mk.inj (Option.some.inj h)
    rw [scan_quoted_body.eq_def]
    simp only [hescape, hc, if_true]
    rfl
  case case5 c hescape hc d cs hd ih =>
    obtain ⟨⟨body', behind'⟩, hbody, heq⟩ := Option.map_eq_some_iff.mp h
    obtain ⟨rfl, rfl⟩ := Prod.mk.inj heq
    rw [scan_quoted_body.eq_def]
    simp only [hescape, hc, hd, if_true, ih hbody, Option.map_some]
    rfl
  case case6 c hescape hc d cs hd =>
    obtain ⟨rfl, rfl⟩ := Prod.mk.inj (Option.some.inj h)
    rw [scan_quoted_body.eq_def]
    simp only [hescape, hc, if_true]
    rfl
  case case7 c cs hescape hc ih =>
    obtain ⟨⟨body', behind'⟩, hbody, heq⟩ := Option.map_eq_some_iff.mp h
    obtain ⟨rfl, rfl⟩ := Prod.mk.inj heq
    rw [scan_quoted_body.eq_def]
    simp only [hescape, hc, ih hbody, Option.map_some]
    rfl

/-! ## Operators -/

theorem operator_run_of_start {cs run : List Char} (h : run <+: operator_run features cs) :
    operator_run features run = run := by
  induction cs generalizing run with
  | nil =>
    rw [operator_run, List.prefix_nil] at h
    rw [h]
    rfl
  | cons c cs ih =>
    rw [operator_run] at h
    split at h
    · rename_i hc
      cases run with
      | nil => rfl
      | cons d run =>
        obtain ⟨rfl, hrun⟩ := List.cons_prefix_cons.mp h
        simp only [Bool.and_eq_true, Bool.not_eq_true'] at hc
        have hcomment : starts_comment d run = false := by
          have hle : run <+: cs := hrun.trans (operator_run_start cs)
          obtain ⟨behind, rfl⟩ := hle
          cases run with
          | nil => simp [starts_comment]
          | cons e run => exact hc.2
        rw [operator_run, hc.1, hcomment, ih hrun]
        rfl
    · rw [List.prefix_nil] at h
      rw [h]
      rfl

/-- A run on its own is that run. -/
theorem custom_operator_run_self {c : Char} {cs run : List Char}
    (h : custom_operator_run features c cs = c :: run) :
    run <+: cs ∧ custom_operator_run features c run = c :: run := by
  unfold custom_operator_run at h ⊢
  dsimp only at h ⊢
  split at h
  · rename_i hallows
    obtain rfl := (List.cons.inj h).2
    rw [operator_run_of_start (List.prefix_refl _), if_pos hallows]
    exact ⟨operator_run_start cs, rfl⟩
  · rename_i hallows
    obtain rfl := (List.cons.inj h).2
    have hle := List.rdropWhile_prefix is_sign_char (operator_run features cs)
    rw [operator_run_of_start hle, if_neg, List.rdropWhile_idempotent]
    · exact ⟨hle.trans (operator_run_start cs), rfl⟩
    · intro hshort
      apply hallows
      simp only [List.any_cons, Bool.or_eq_true, List.any_eq_true] at hshort ⊢
      exact hshort.imp id fun ⟨d, hd, hallow⟩ => ⟨d, hle.subset hd, hallow⟩

theorem known_operator_token_eq : known_operator_token features ['='] = some .Eq := by
  have hgated : ∀ (on : Bool) (ops : List Operator), (∀ op ∈ ops, op.text ≠ ['=']) →
      (bif on then ops else []).find? (fun op => op.text == ['=']) = none := by
    intro on ops hops
    rw [List.find?_eq_none]
    intro op hop
    have hmem : op ∈ ops := by
      cases on
      · cases hop
      · exact hop
    simp [hops op hmem]
  unfold known_operator_token known_operators
  dsimp only
  simp only [List.find?_append]
  rw [hgated _ [.LtEqGt] (by decide), hgated _ [.MinusGtGt] (by decide),
    hgated _ [.HashGtGt] (by decide),
    hgated _ [.QuestionPipe, .QuestionAmp, .AtQuestion, .AtAt, .HashGt, .HashMinus] (by decide),
    hgated _ [.AtGt, .LtAt] (by decide), hgated _ [.MinusGt] (by decide),
    hgated _ [.Arrow] (by decide), hgated _ [.PipeArrow] (by decide),
    hgated _ [.EqEq] (by decide), hgated _ [.SlashSlash] (by decide),
    hgated _ [.CaretAt] (by decide)]
  rfl

theorem custom_operator_run_cons (c : Char) (cs : List Char) :
    ∃ run, custom_operator_run features c cs = c :: run := by
  unfold custom_operator_run
  dsimp only
  split
  · exact ⟨_, rfl⟩
  · exact ⟨_, rfl⟩

/-- An operator on its own is that operator. -/
theorem scan_operator_self {c : Char} {cs rest : List Char} {t : Token}
    (h : scan_operator features c cs = some (t, rest)) :
    ∃ op tail, t = .operator op ∧ op.text = c :: tail ∧ tail <+: cs ∧
      scan_operator features c tail = some (.operator op, []) ∧
      (features.operator_syntax.custom_operators = true ∨ op ∈ known_operators features) := by
  unfold scan_operator at h ⊢
  split at h
  · rename_i hcustom
    obtain ⟨run, hrun⟩ : ∃ run, custom_operator_run features c cs = c :: run :=
      custom_operator_run_cons c cs
    obtain ⟨hstart, hself⟩ := custom_operator_run_self hrun
    simp only [hcustom, true_or, and_true]
    unfold scan_custom_operator at h
    dsimp only at h
    rw [hrun] at h
    cases hknown : known_operator_token features (c :: run) with
    | some op =>
      rw [hknown] at h
      obtain ⟨rfl, rfl⟩ := Prod.mk.inj (Option.some.inj h)
      have htext : op.text = c :: run := by
        have hfound := List.find?_some (p := fun op : Operator => op.text == c :: run) hknown
        simpa using hfound
      refine ⟨op, run, rfl, htext, hstart, ?_⟩
      simp [scan_custom_operator, hself, hknown]
    | none =>
      rw [hknown] at h
      dsimp only at h
      split at h
      · rename_i harrow
        obtain ⟨rfl, rfl⟩ := Prod.mk.inj (Option.some.inj h)
        rw [beq_iff_eq] at harrow
        obtain rfl := (List.cons.inj harrow).1
        refine ⟨.Eq, [], rfl, rfl, List.nil_prefix, ?_⟩
        have hsingle : custom_operator_run features '=' [] = ['='] := rfl
        simp [scan_custom_operator, hsingle, known_operator_token_eq]
      · rename_i harrow
        obtain ⟨rfl, rfl⟩ := Prod.mk.inj (Option.some.inj h)
        refine ⟨.Custom (c :: run), run, rfl, rfl, hstart, ?_⟩
        simp only [scan_custom_operator, hself, hknown, if_neg harrow]
        simp
  · rename_i hcustom
    obtain ⟨op, hop, heq⟩ := Option.map_eq_some_iff.mp h
    obtain ⟨rfl, rfl⟩ := Prod.mk.inj heq
    have hmem := List.mem_of_find?_eq_some hop
    have hfound : op.text.isPrefixOf (c :: cs) = true :=
      List.find?_some (p := fun op : Operator => op.text.isPrefixOf (c :: cs)) hop
    have hstart := List.isPrefixOf_iff_prefix.mp hfound
    obtain ⟨tail, htext⟩ : ∃ tail, op.text = c :: tail := by
      cases htext : op.text with
      | nil => exact absurd (by simp [htext]) (known_text hmem).1
      | cons d tail =>
        rw [htext] at hstart
        exact ⟨tail, by rw [(List.cons_prefix_cons.mp hstart).1]⟩
    have htail : tail <+: cs := by
      rw [htext] at hstart
      exact (List.cons_prefix_cons.mp hstart).2
    refine ⟨op, tail, rfl, htext, htail, ?_, Or.inr hmem⟩
    rw [if_neg hcustom, ← htext]
    -- no operator in front of this one is a prefix of its text
    have hself : (known_operators features).find? (fun op' => op'.text.isPrefixOf op.text) = some op := by
      obtain ⟨-, as, bs, hsplit, has⟩ := List.find?_eq_some_iff_append.mp hop
      refine List.find?_eq_some_iff_append.mpr ⟨?_, as, bs, hsplit, ?_⟩
      · exact List.isPrefixOf_iff_prefix.mpr (List.prefix_refl _)
      · intro op' hop'
        have hno := has op' hop'
        rw [Bool.not_eq_true'] at hno ⊢
        by_contra hyes
        rw [Bool.not_eq_false, List.isPrefixOf_iff_prefix] at hyes
        have hyes' := List.isPrefixOf_iff_prefix.mpr (hyes.trans hstart)
        rw [hno] at hyes'
        cases hyes'
    rw [hself, Option.map_some, List.drop_length]

/-! ## Less to look at -/

section Shorter

variable {cs tail : List Char} (htail : tail <+: cs)

include htail

theorem any_head_of_start {p : Char → Bool} (h : cs.head?.any p = false) :
    tail.head?.any p = false := by
  obtain ⟨behind, rfl⟩ := htail
  cases tail with
  | nil => rfl
  | cons e tail => exact h

theorem skip_trivia_of_prefix {c : Char} (h : skip_trivia features c cs = some none) :
    skip_trivia features c tail = some none := by
  obtain ⟨hblank, hline, hblock⟩ := skip_trivia_none_iff.mp h
  obtain ⟨behind, rfl⟩ := htail
  refine skip_trivia_none_iff.mpr ⟨hblank, ?_, ?_⟩
  · cases tail with
    | nil =>
      simp only [List.nil_append, Bool.or_eq_false_iff] at hline
      simp [hline.2]
    | cons e tail => exact hline
  · cases tail with
    | nil => simp
    | cons e tail =>
      simp only [List.cons_append, List.head?_cons, List.tail_cons, Bool.and_eq_false_iff,
        Bool.not_eq_false', Bool.and_eq_true, List.isEmpty_iff, List.append_eq_nil_iff] at hblock ⊢
      exact hblock.imp id fun h => ⟨h.1, h.2.1⟩

theorem opens_sigil_of_prefix {c : Char} (h : opens_sigil features c cs = false) :
    opens_sigil features c tail = false := by
  unfold opens_sigil at h ⊢
  dsimp only at h ⊢
  split at h
  · cases h
  · rw [Bool.or_eq_false_iff] at h
    rw [h.1, any_head_of_start htail h.2]
    rfl
  · rw [Bool.and_eq_false_iff] at h ⊢
    exact h.imp id (any_head_of_start htail)
  · rw [Bool.and_eq_false_iff] at h ⊢
    exact h.imp id (any_head_of_start htail)
  · obtain ⟨behind, rfl⟩ := htail
    cases tail with
    | nil => simp
    | cons d tail =>
      simp only [List.cons_append, List.head?_cons, List.tail_cons] at h ⊢
      rw [Bool.or_eq_false_iff, Bool.or_eq_false_iff] at h ⊢
      refine ⟨⟨h.1.1, ?_⟩, h.2⟩
      have hnamed := h.1.2
      rw [Bool.and_eq_false_iff] at hnamed ⊢
      exact hnamed.imp id (any_head_of_start (List.prefix_append tail behind))
  · rfl

theorem opens_operator_of_prefix {c : Char} {op : Operator} (htext : op.text = c :: tail)
    (hknown : features.operator_syntax.custom_operators = true ∨ op ∈ known_operators features)
    (h : opens_operator features c cs = true) : opens_operator features c tail = true := by
  obtain ⟨behind, rfl⟩ := htail
  cases tail with
  | cons d tail => exact h
  | nil =>
    unfold opens_operator at h ⊢
    split at h
    case h_2 =>
      rcases hknown with hcustom | hknown
      · simp [hcustom]
      · exact absurd (by simp [htext]) (known_text hknown).1
    all_goals exact h

end Shorter

/-! ## Every token -/

/-- What the scanner reads as a token is that token when its text stands alone. -/
theorem spelled_of_scanned (hdelimited : Delimited features) {t : Token}
    (hpunct : ∀ punct, t ≠ .punctuation punct) (h : Scanned features t) :
    Spelled features t.text t := by
  obtain ⟨c, cs, rest, htrivia, hscan⟩ := h
  unfold scan_token at hscan
  split at hscan
  · cases hscan
  rename_i hprefixed
  split at hscan
  · rename_i hquote
    unfold scan_string at hscan
    dsimp only at hscan
    split at hscan
    · cases hscan
    rename_i body behind hbody
    split at hscan
    · cases hscan
    rename_i hnul
    obtain ⟨rfl, rfl⟩ := Prod.mk.inj (Option.some.inj hscan)
    have hc : c = single_quote ∨ c = '"' := by
      simp only [Bool.or_eq_true, Bool.and_eq_true, beq_iff_eq] at hquote
      exact hquote.imp id And.left
    have hstart : is_identifier_start c = false := by
      rcases hc with rfl | rfl <;> rfl
    refine ⟨c, body, rfl, ?_, ?_⟩
    · rcases hc with rfl | rfl
      · exact skip_trivia_none_iff.mpr ⟨rfl, rfl, rfl⟩
      · exact skip_trivia_none_iff.mpr ⟨rfl, rfl, rfl⟩
    · unfold scan_token
      rw [not_prefixed_of_not_start hstart, if_neg Bool.false_ne_true, if_pos hquote]
      unfold scan_string
      simp only [scan_quoted_body_self hbody]
      rw [if_neg]
      simp only [Bool.or_eq_true, not_or] at hnul ⊢
      exact ⟨hnul.1, by simp [extends_string]⟩
  rename_i hquote
  split at hscan
  · rename_i close hident
    unfold scan_quoted_ident at hscan
    split at hscan
    · cases hscan
    rename_i body behind hbody
    split at hscan
    · cases hscan
    rename_i hnul
    obtain ⟨rfl, rfl⟩ := Prod.mk.inj (Option.some.inj hscan)
    obtain ⟨style, hstyle, -⟩ := Option.map_eq_some_iff.mp hident
    have hc : style.1 = c := by
      have hfound := List.find?_some (p := fun style : Char × Char => style.1 == c) hstyle
      simpa using hfound
    have hmem := List.mem_of_find?_eq_some hstyle
    have hstart := hdelimited.opening_start style hmem
    have hoperator := hdelimited.opening style hmem
    rw [hc] at hstart hoperator
    obtain ⟨hblank, hline, -⟩ := skip_trivia_none_iff.mp htrivia
    refine ⟨c, body, rfl, skip_trivia_none_iff.mpr ⟨hblank, ?_, ?_⟩, ?_⟩
    · have hminus : (c == '-') = false := by
        rw [beq_eq_false_iff_ne]
        rintro rfl
        cases hoperator
      rw [hminus, Bool.false_and, Bool.false_or] at hline ⊢
      exact hline
    · have hslash : (c == '/') = false := by
        rw [beq_eq_false_iff_ne]
        rintro rfl
        cases hoperator
      rw [hslash]
      rfl
    · unfold scan_token
      rw [not_prefixed_of_not_start hstart, if_neg Bool.false_ne_true, if_neg hquote, hident]
      simp only [scan_quoted_ident, scan_quoted_body_self hbody]
      rw [if_neg hnul]
  rename_i hident
  split at hscan
  · cases hscan
  rename_i hsigil
  rw [Bool.not_eq_true] at hsigil
  split at hscan
  · rename_i hstart
    have hword := Option.some.inj hscan
    have hcont : ∀ d ∈ cs.takeWhile (is_identifier_continue features),
        is_identifier_continue features d = true := fun d => List.mem_takeWhile_imp
    unfold scan_word at hword
    dsimp only at hword
    split at hword
    · obtain ⟨rfl, -⟩ := Prod.mk.inj hword
      exact spelled_keyword hdelimited _
    · rename_i hlookup
      obtain ⟨rfl, -⟩ := Prod.mk.inj hword
      exact spelled_word hdelimited hstart hcont (by rw [scan_word_self hcont, hlookup]; rfl)
  rename_i hstart
  rw [Bool.not_eq_true] at hstart
  split at hscan
  · rename_i hnumber
    obtain ⟨rfl, hself⟩ := scan_number_self hscan
    obtain ⟨cs', htext, hnumber'⟩ := number_text_cons hnumber
    have htail : cs' <+: cs := by
      have hsplit := eat_fixed_point_append (c :: cs)
      rw [htext, List.cons_append] at hsplit
      exact ⟨_, (List.cons.inj hsplit).2⟩
    refine ⟨c, cs', htext, skip_trivia_of_prefix htail htrivia, ?_⟩
    · unfold scan_token
      rw [not_prefixed_of_not_start hstart, if_neg Bool.false_ne_true, if_neg hquote, hident,
        opens_sigil_of_prefix htail hsigil]
      simp only [Bool.false_eq_true, if_false, hstart, hnumber', if_true]
      rw [← htext]
      exact hself
  rename_i hnumber
  rw [Bool.not_eq_true] at hnumber
  split at hscan
  · rename_i hoperator
    obtain ⟨op, tail, rfl, htext, htail, hself, hknown⟩ := scan_operator_self hscan
    refine ⟨c, tail, htext, skip_trivia_of_prefix htail htrivia, ?_⟩
    have hnumber' : (c.isDigit || c == '.' && tail.head?.any Char.isDigit) = false := by
      simp only [Bool.or_eq_false_iff, Bool.and_eq_false_iff] at hnumber ⊢
      exact ⟨hnumber.1, hnumber.2.imp id (any_head_of_start htail)⟩
    unfold scan_token
    rw [not_prefixed_of_not_start hstart, if_neg Bool.false_ne_true, if_neg hquote, hident,
      opens_sigil_of_prefix htail hsigil, hstart, hnumber',
      opens_operator_of_prefix htail htext hknown hoperator]
    exact hself
  · rename_i hoperator
    rw [Bool.not_eq_true] at hoperator
    -- the only operator among the punctuation is `:=`
    have hassign : c = ':' ∧ t = .operator .ColonEquals ∧ ['='] <+: cs ∧
        (features.call_syntax.named_argument ||
          features.session_variables.variable_assignment) = true := by
      unfold scan_punctuation at hscan
      split at hscan
      case h_10 =>
        split at hscan
        · exact absurd (Prod.mk.inj (Option.some.inj hscan)).1.symm (hpunct _)
        split at hscan
        · rename_i hequals
          rw [Bool.and_eq_true, beq_iff_eq] at hequals
          obtain ⟨rfl, -⟩ := Prod.mk.inj (Option.some.inj hscan)
          refine ⟨rfl, rfl, ?_, hequals.1⟩
          cases cs with
          | nil => cases hequals.2
          | cons d cs =>
            rw [List.cons_prefix_cons]
            exact ⟨(Option.some.inj hequals.2).symm, List.nil_prefix⟩
        · exact absurd (Prod.mk.inj (Option.some.inj hscan)).1.symm (hpunct _)
      case h_11 =>
        split at hscan
        · exact absurd (Prod.mk.inj (Option.some.inj hscan)).1.symm (hpunct _)
        · cases hscan
      case h_12 => cases hscan
      all_goals exact absurd (Prod.mk.inj (Option.some.inj hscan)).1.symm (hpunct _)
    obtain ⟨rfl, rfl, htail, hgate⟩ := hassign
    refine ⟨':', ['='], rfl, skip_trivia_of_prefix htail htrivia, ?_⟩
    unfold scan_token
    rw [not_prefixed_of_not_start hstart, if_neg Bool.false_ne_true, if_neg hquote, hident,
      opens_sigil_of_prefix htail hsigil]
    have hnumber' : ((':' : Char).isDigit || (':' : Char) == '.' &&
        (['='] : List Char).head?.any Char.isDigit) = false := rfl
    have hoperator' : opens_operator features ':' ['='] = false := hoperator
    simp only [Bool.false_eq_true, if_false, hstart, hnumber', hoperator', scan_punctuation]
    simp [hgate]

end squonk.tokenizer
