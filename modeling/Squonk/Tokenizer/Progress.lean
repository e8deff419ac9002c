import Squonk.Tokenizer.Scan

/-!
# The scanner makes progress

Trivia and tokens leave less input than they find, so the scanner's fuel never runs out and a
source can be read one piece at a time.
-/

open squonk.ast squonk.dialect

namespace squonk.tokenizer

variable {features : FeatureSet}

/-! ## Trivia -/

theorem length_dropWhile_le (p : Char → Bool) (cs : List Char) :
    (cs.dropWhile p).length ≤ cs.length :=
  (List.dropWhile_sublist p).length_le

theorem length_skip_block_comment_le (nested silent_eof : Bool) {depth : Nat}
    {cs rest : List Char} (h : skip_block_comment nested silent_eof depth cs = some rest) :
    rest.length ≤ cs.length := by
  fun_induction skip_block_comment nested silent_eof depth cs
  all_goals grind

/-- A token starts where no blank and no comment does. -/
theorem skip_trivia_none_iff {c : Char} {cs : List Char} :
    skip_trivia features c cs = some none ↔ is_whitespace c = false ∧
      (c == '-' && cs.head? == some '-' ||
        c == '#' && features.comment_syntax.line_comment_hash) = false ∧
      (c == '/' && cs.head? == some '*' &&
        !(features.comment_syntax.unterminated_block_comment_at_eof && cs.tail.isEmpty)) = false := by
  unfold skip_trivia
  dsimp only
  constructor
  · intro h
    split at h
    · cases h
    rename_i hblank
    split at h
    · split at h <;> cases h
    rename_i hline
    split at h
    · split at h
      · cases h
      split at h
      · cases h
      split at h <;> cases h
    rename_i hblock
    simp only [Bool.not_eq_true] at hblank hline hblock
    exact ⟨hblank, hline, hblock⟩
  · rintro ⟨hblank, hline, hblock⟩
    rw [if_neg (by simp [hblank]), if_neg (by simp only [hline, Bool.false_eq_true,
      not_false_eq_true]), if_neg (by simp only [hblock, Bool.false_eq_true, not_false_eq_true])]

theorem length_skip_trivia_le {c : Char} {cs rest : List Char}
    (h : skip_trivia features c cs = some (some rest)) : rest.length ≤ cs.length := by
  unfold skip_trivia at h
  simp only at h
  split at h
  · obtain rfl := Option.some.inj (Option.some.inj h)
    exact length_dropWhile_le _ _
  split at h
  · split at h
    · obtain rfl := Option.some.inj (Option.some.inj h)
      exact length_dropWhile_le _ _
    · cases h
  split at h
  · split at h
    · cases h
    · split at h
      · cases h
      · rename_i rest' hblock
        split at h
        · obtain rfl := Option.some.inj (Option.some.inj h)
          have htail := length_skip_block_comment_le _ _ hblock
          have hcs : cs.tail.length ≤ cs.length := by simp
          omega
        · cases h
  · cases h

/-! ## Tokens -/

theorem length_scan_quoted_body_le {close : Char} {escapes : Bool} {cs : List Char}
    {read : List Char × List Char} (h : scan_quoted_body close escapes cs = some read) :
    read.2.length ≤ cs.length := by
  fun_induction scan_quoted_body close escapes cs generalizing read
  case case1 => cases h
  case case2 => cases h
  case case3 ih =>
    obtain ⟨read', hbody, rfl⟩ := Option.map_eq_some_iff.mp h
    have hle := ih hbody
    simp only [List.length_cons]
    omega
  case case4 =>
    obtain rfl := Option.some.inj h
    simp
  case case5 ih =>
    obtain ⟨read', hbody, rfl⟩ := Option.map_eq_some_iff.mp h
    have hle := ih hbody
    simp only [List.length_cons]
    omega
  case case6 =>
    obtain rfl := Option.some.inj h
    simp
  case case7 ih =>
    obtain ⟨read', hbody, rfl⟩ := Option.map_eq_some_iff.mp h
    have hle := ih hbody
    simp only [List.length_cons]
    omega

theorem length_scan_number_le {c : Char} {cs rest : List Char} {t : Token}
    (hstart : (c.isDigit || c == '.' && cs.head?.any Char.isDigit) = true)
    (h : scan_number (c :: cs) = some (t, rest)) : rest.length ≤ cs.length := by
  have hfixed : (eat_fixed_point (c :: cs)).2.length ≤ cs.length := by
    unfold eat_fixed_point
    by_cases hdigit : c.isDigit = true
    · rw [List.dropWhile_cons_of_pos hdigit]
      have hle := length_dropWhile_le Char.isDigit cs
      split
      · rename_i rest' heq
        have hrest := length_dropWhile_le Char.isDigit rest'
        rw [heq, List.length_cons] at hle
        exact Nat.le_trans hrest (by omega)
      · exact hle
    · simp only [hdigit, Bool.false_or, Bool.and_eq_true, beq_iff_eq] at hstart
      rw [List.dropWhile_cons_of_neg hdigit, hstart.1]
      exact length_dropWhile_le _ _
  unfold scan_number at h
  dsimp only at h
  split at h
  · cases h
  · obtain ⟨-, rfl⟩ := Prod.mk.inj (Option.some.inj h)
    exact hfixed

/-- The characters of the operators with a token of their own. -/
def is_symbol_char (c : Char) : Bool := "~!@#^&|?+-*/%<>=".toList.contains c

theorem known_text {op : Operator} (h : op ∈ known_operators features) :
    op.text ∉ [[], ['@'], ['/', '*']] ∧ ∀ c ∈ op.text, is_symbol_char c = true := by
  have hgated : ∀ {on : Bool} {ops : List Operator}, op ∈ (bif on then ops else []) → op ∈ ops := by
    intro on ops h
    cases on
    · cases h
    · exact h
  have hall : ∀ ops : List Operator, op ∈ ops →
      (∀ op ∈ ops, op.text ∉ [[], ['@'], ['/', '*']] ∧ op.text.all is_symbol_char = true) →
      op.text ∉ [[], ['@'], ['/', '*']] ∧ ∀ c ∈ op.text, is_symbol_char c = true := by
    intro ops hop hops
    exact ⟨(hops op hop).1, fun c hc => List.all_eq_true.mp (hops op hop).2 c hc⟩
  unfold known_operators at h
  simp only [List.mem_append] at h
  rcases h with ((((((((((((((h | h) | h) | h) | h) | h) | h) | h) | h) | h) | h) | h) | h) | h) | h)
  all_goals first
    | exact hall _ (hgated h) (by decide)
    | exact hall _ h (by decide)

theorem length_scan_operator_le {c : Char} {cs rest : List Char} {t : Token}
    (h : scan_operator features c cs = some (t, rest)) : rest.length ≤ cs.length := by
  unfold scan_operator at h
  split at h
  · obtain ⟨-, rfl⟩ := Prod.mk.inj (Option.some.inj h)
    split
    · simp
    · split <;> simp
  · obtain ⟨op, hop, heq⟩ := Option.map_eq_some_iff.mp h
    obtain ⟨-, rfl⟩ := Prod.mk.inj heq
    have hknown := (known_text (List.mem_of_find?_eq_some hop)).1
    have hpos : 0 < op.text.length := by
      rw [List.length_pos_iff]
      rintro hnil
      exact hknown (by simp [hnil])
    simp only [List.length_drop, List.length_cons]
    omega

theorem length_scan_punctuation_le {c : Char} {cs rest : List Char} {t : Token}
    (h : scan_punctuation features c cs = some (t, rest)) : rest.length ≤ cs.length := by
  unfold scan_punctuation at h
  repeat' split at h
  all_goals first
    | (obtain ⟨-, rfl⟩ := Prod.mk.inj (Option.some.inj h); simp)
    | cases h

theorem length_scan_token_le {c : Char} {cs rest : List Char} {t : Token}
    (h : scan_token features c cs = some (t, rest)) : rest.length ≤ cs.length := by
  unfold scan_token at h
  split at h
  · cases h
  split at h
  · unfold scan_string at h
    dsimp only at h
    split at h
    · cases h
    · rename_i hbody
      split at h
      · cases h
      · obtain ⟨-, rfl⟩ := Prod.mk.inj (Option.some.inj h)
        exact length_scan_quoted_body_le hbody
  split at h
  · unfold scan_quoted_ident at h
    split at h
    · cases h
    · rename_i hbody
      split at h
      · cases h
      · obtain ⟨-, rfl⟩ := Prod.mk.inj (Option.some.inj h)
        exact length_scan_quoted_body_le hbody
  split at h
  · cases h
  split at h
  · unfold scan_word at h
    dsimp only at h
    split at h
    all_goals
      obtain ⟨-, rfl⟩ := Prod.mk.inj (Option.some.inj h)
      exact length_dropWhile_le _ _
  split at h
  · rename_i hstart
    exact length_scan_number_le hstart h
  split at h
  · exact length_scan_operator_le h
  · exact length_scan_punctuation_le h

/-! ## The whole source -/

theorem next_tokens_eq {n m : Nat} {cs : List Char} (hn : cs.length < n) (hm : cs.length < m) :
    next_tokens features n cs = next_tokens features m cs := by
  induction n generalizing m cs with
  | zero => omega
  | succ n ih =>
    obtain ⟨m, rfl⟩ : ∃ k, m = k + 1 := ⟨m - 1, by omega⟩
    cases cs with
    | nil => rfl
    | cons c cs =>
      simp only [List.length_cons] at hn hm
      simp only [next_tokens]
      cases htrivia : skip_trivia features c cs with
      | none => rfl
      | some skipped =>
        cases skipped with
        | some rest =>
          have hle := length_skip_trivia_le htrivia
          exact ih (by omega) (by omega)
        | none =>
          cases hscan : scan_token features c cs with
          | none => rfl
          | some read =>
            obtain ⟨t, rest⟩ := read
            have hle := length_scan_token_le hscan
            simp only
            rw [ih (m := m) (by omega) (by omega)]

@[simp] theorem tokenize_nil : tokenize features [] = some [] := rfl

theorem tokenize_of_trivia {c : Char} {cs rest : List Char}
    (h : skip_trivia features c cs = some (some rest)) :
    tokenize features (c :: cs) = tokenize features rest := by
  have hle := length_skip_trivia_le h
  rw [tokenize, next_tokens]
  simp only [h]
  exact next_tokens_eq (by simp only [List.length_cons]; omega) (by omega)

theorem tokenize_of_scan {c : Char} {cs rest : List Char} {t : Token}
    (htrivia : skip_trivia features c cs = some none)
    (h : scan_token features c cs = some (t, rest)) :
    tokenize features (c :: cs) = (tokenize features rest).map (t :: ·) := by
  have hle := length_scan_token_le h
  rw [tokenize, next_tokens]
  simp only [htrivia, h]
  rw [tokenize, next_tokens_eq (by simp only [List.length_cons]; omega) (Nat.lt_succ_self _)]

/-- A blank in front of a source changes nothing. -/
theorem tokenize_blank (cs : List Char) :
    tokenize features (' ' :: cs) = tokenize features cs := by
  have hskip : ∀ c cs, is_whitespace c = true →
      tokenize features (c :: cs) = tokenize features (cs.dropWhile is_whitespace) := by
    intro c cs hc
    apply tokenize_of_trivia
    rw [skip_trivia, if_pos hc]
  rw [hskip ' ' cs rfl]
  cases cs with
  | nil => rfl
  | cons c cs =>
    by_cases hc : is_whitespace c = true
    · rw [List.dropWhile_cons_of_pos hc, hskip c cs hc]
    · rw [List.dropWhile_cons_of_neg hc]

end squonk.tokenizer
