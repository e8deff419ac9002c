import Mathlib
import Squonk.Dialect.Presets
import Squonk.Tokenizer.Extent

/-!
# Operators of many characters

What a run of operator characters is one operator of, and that an operator with a token of its own
is the same token whether any run is an operator or only the spellings of a list are.
-/

open squonk.dialect

namespace squonk.tokenizer.scan

variable {features : FeatureSet}

/-! ## The rule for runs -/

/-- A comment opens at the place of the text. -/
def CommentOpens (text : List Char) (i : Nat) : Prop :=
  text[i]? = some '-' ∧ text[i + 1]? = some '-' ∨ text[i]? = some '/' ∧ text[i + 1]? = some '*'

/-- The first characters are operator characters at none of which a comment opens. The scanner is
    not called at a comment or at another character. -/
def OperatorFront (features : FeatureSet) (text : List Char) (n : Nat) : Prop :=
  n ≤ text.length ∧ ∀ i, 0 < i → i < n →
    (∃ c ∈ text[i]?, is_operator_char features c = true) ∧ ¬ CommentOpens text i

/-- An operator of more than one character ends in a sign only if it has a character that permits
    it. -/
def SignPermitted (front : List Char) : Prop :=
  1 < front.length → (∃ c ∈ front.getLast?, is_sign_char c = true) →
    ∃ c ∈ front, operator_char_allows_trailing_sign c = true

/-- The operator is the longest run, shortened until it may end as it does. -/
def MunchRule (features : FeatureSet) (text run : List Char) : Prop :=
  ∃ n m, IsGreatest {n | OperatorFront features text n} n ∧
    IsGreatest {m | m ≤ n ∧ SignPermitted (text.take m)} m ∧ run = text.take m

theorem starts_comment_iff {c : Char} {cs : List Char} :
    starts_comment c cs = true ↔ CommentOpens (c :: cs) 0 := by
  simp [starts_comment, CommentOpens, List.head?_eq_getElem?]

theorem commentOpens_succ (c : Char) (cs : List Char) (i : Nat) :
    CommentOpens (c :: cs) (i + 1) ↔ CommentOpens cs i := Iff.rfl

/-- The characters of a run, the first one among them. -/
def RunFront (features : FeatureSet) (text : List Char) (n : Nat) : Prop :=
  n ≤ text.length ∧ ∀ i < n,
    (∃ c ∈ text[i]?, is_operator_char features c = true) ∧ ¬ CommentOpens text i

theorem operatorFront_succ {lead : Char} {cs : List Char} {n : Nat} :
    OperatorFront features (lead :: cs) (n + 1) ↔ RunFront features cs n := by
  unfold OperatorFront RunFront
  rw [List.length_cons, Nat.add_le_add_iff_right]
  refine and_congr_right fun _ => ⟨fun h i hi => h (i + 1) (by omega) (by omega), ?_⟩
  intro h i hpos hi
  obtain ⟨j, rfl⟩ : ∃ j, i = j + 1 := ⟨i - 1, by omega⟩
  exact h j (by omega)

theorem runFront_zero (text : List Char) : RunFront features text 0 :=
  ⟨Nat.zero_le _, fun _ hi => absurd hi (Nat.not_lt_zero _)⟩

theorem runFront_succ {c : Char} {cs : List Char} {n : Nat} :
    RunFront features (c :: cs) (n + 1) ↔
      (is_operator_char features c = true ∧ starts_comment c cs = false) ∧
        RunFront features cs n := by
  unfold RunFront
  rw [List.length_cons, Nat.add_le_add_iff_right, and_left_comm]
  refine and_congr_right fun _ => ?_
  rw [← Bool.not_eq_true, starts_comment_iff]
  constructor
  · intro h
    have hlead := h 0 (Nat.succ_pos n)
    simp only [List.getElem?_cons_zero, Option.mem_def, Option.some.injEq, exists_eq_left'] at hlead
    exact ⟨hlead, fun i hi => h (i + 1) (Nat.succ_lt_succ hi)⟩
  · rintro ⟨hlead, h⟩ i hi
    cases i with
    | zero => simpa using hlead
    | succ i => exact h i (Nat.lt_of_succ_lt_succ hi)

/-- The loop over the bytes behind the first one stops where it has to. -/
theorem operator_run_greatest (cs : List Char) :
    IsGreatest {n | RunFront features cs n} (operator_run features cs).length := by
  induction cs with
  | nil => exact ⟨runFront_zero [], fun _ h => h.1⟩
  | cons c cs ih =>
    rw [operator_run]
    split
    · rename_i hop
      obtain ⟨hc, hcomment⟩ := (Bool.and_eq_true ..).mp hop
      refine ⟨runFront_succ.mpr ⟨⟨hc, by simpa using hcomment⟩, ih.1⟩, fun n hn => ?_⟩
      cases n with
      | zero => exact Nat.zero_le _
      | succ n => exact Nat.succ_le_succ (ih.2 (runFront_succ.mp hn).2)
    · rename_i hop
      refine ⟨runFront_zero _, fun n hn => ?_⟩
      cases n with
      | zero => exact Nat.zero_le _
      | succ n =>
        obtain ⟨⟨hc, hcomment⟩, -⟩ := runFront_succ.mp hn
        exact absurd (by rw [hc, hcomment]; rfl) hop

theorem operatorFront_greatest (lead : Char) (cs : List Char) :
    IsGreatest {n | OperatorFront features (lead :: cs) n}
      ((operator_run features cs).length + 1) := by
  obtain ⟨hrun, hmax⟩ := @operator_run_greatest features cs
  refine ⟨operatorFront_succ.mpr hrun, fun n hn => ?_⟩
  cases n with
  | zero => exact Nat.zero_le _
  | succ n => exact Nat.succ_le_succ (hmax (operatorFront_succ.mp hn))

/-- Signs at the end of a run are taken off it where no character permits them. -/
theorem signs_trimmed {lead : Char} {run : List Char}
    (h : ¬ ∃ c ∈ lead :: run, operator_char_allows_trailing_sign c = true) :
    IsGreatest {m | m ≤ run.length + 1 ∧ SignPermitted ((lead :: run).take m)}
      ((run.rdropWhile is_sign_char).length + 1) := by
  have hfront : run.rdropWhile is_sign_char <+: run := List.rdropWhile_prefix is_sign_char run
  have hsplit : run.rdropWhile is_sign_char ++ run.rtakeWhile is_sign_char = run :=
    List.rdropWhile_append_rtakeWhile
  constructor
  · refine ⟨Nat.succ_le_succ hfront.length_le, ?_⟩
    rw [List.take_succ_cons, ← List.prefix_iff_eq_take.mp hfront]
    rintro hlong ⟨c, hc, hsign⟩
    have hne : run.rdropWhile is_sign_char ≠ [] := by
      intro hnil
      simp [hnil] at hlong
    rw [List.getLast?_cons, List.getLast?_eq_some_getLast hne] at hc
    obtain rfl : _ = c := Option.some.inj hc
    exact absurd hsign (List.rdropWhile_last_not _ _ hne)
  · rintro m ⟨hle, hm⟩
    by_contra hlt
    obtain ⟨k, rfl⟩ : ∃ k, m = (run.rdropWhile is_sign_char).length + k + 2 :=
      ⟨m - (run.rdropWhile is_sign_char).length - 2, by omega⟩
    have hk : k < (run.rtakeWhile is_sign_char).length := by
      have hlength := congrArg List.length hsplit
      rw [List.length_append] at hlength
      omega
    have hlast : ((lead :: run).take ((run.rdropWhile is_sign_char).length + k + 2)).getLast? =
        some (run.rtakeWhile is_sign_char)[k] := by
      have hget {front back : List Char} (heq : front ++ back = run) :
          run[front.length + k]? = back[k]? := by
        rw [← heq, List.getElem?_append_right (Nat.le_add_right _ _), Nat.add_sub_cancel_left]
      rw [List.getLast?_take, if_neg (by omega)]
      show (run[(run.rdropWhile is_sign_char).length + k]?.or _) = _
      rw [hget hsplit, List.getElem?_eq_getElem hk]
      rfl
    have hsign : is_sign_char (run.rtakeWhile is_sign_char)[k] = true :=
      List.mem_rtakeWhile_imp (List.getElem_mem hk)
    obtain ⟨c, hc, hallows⟩ := hm (by rw [List.length_take, List.length_cons]; omega)
      ⟨_, hlast, hsign⟩
    exact h ⟨c, List.mem_of_mem_take hc, hallows⟩

/-- The operator at a text is the one of the rule. -/
theorem custom_operator_run_rule (lead : Char) (cs : List Char) :
    MunchRule features (lead :: cs) (custom_operator_run features lead cs) := by
  have hfront := @operatorFront_greatest features lead cs
  have htake : lead :: operator_run features cs =
      (lead :: cs).take ((operator_run features cs).length + 1) := by
    rw [List.take_succ_cons, ← List.prefix_iff_eq_take.mp (operator_run_start cs)]
  have hcut {m : Nat} (hm : m ≤ (operator_run features cs).length + 1) :
      (lead :: cs).take m = (lead :: operator_run features cs).take m := by
    rw [htake, List.take_take, Nat.min_eq_left hm]
  unfold custom_operator_run
  dsimp only
  split
  · rename_i hallows
    refine ⟨_, _, hfront, ⟨⟨le_rfl, fun _ _ => ?_⟩, fun _ h => h.1⟩, htake⟩
    rw [← htake]
    simpa using hallows
  · rename_i hallows
    obtain ⟨⟨hle, hpermitted⟩, hmax⟩ := signs_trimmed (by simpa using hallows)
    refine ⟨_, _, hfront, ⟨⟨hle, ?_⟩, fun m hm => hmax ⟨hm.1, ?_⟩⟩, ?_⟩
    · rwa [hcut hle]
    · rw [← hcut hm.1]
      exact hm.2
    · rw [hcut hle, List.take_succ_cons,
        ← List.prefix_iff_eq_take.mp (List.rdropWhile_prefix is_sign_char _)]

/-! ## The tokens of both scanners -/

/-- Whether the dialect has a token of its own for the operator. -/
def operator_enabled (features : FeatureSet) : tokenizer.Operator → Bool
  | .SlashSlash => features.operator_syntax.integer_divide_slash
  | .EqEq => features.operator_syntax.double_equals
  | .LtEqGt => features.operator_syntax.null_safe_equals
  | .CaretAt => features.operator_syntax.starts_with_operator
  | .Hash => features.hash_bitwise_xor
  | .Arrow => features.call_syntax.named_argument
  | .PipeArrow => features.query_tail_syntax.pipe_syntax
  | .AtGt | .LtAt => features.operator_syntax.containment_operators
  | .MinusGt | .MinusGtGt => features.operator_syntax.json_arrow_operators
  | .Question | .QuestionPipe | .QuestionAmp | .AtQuestion | .AtAt | .HashGt | .HashGtGt
  | .HashMinus => features.operator_syntax.jsonb_operators
  | .ColonEquals | .Custom _ => false
  | _ => true

/-- The operators that a dialect may have a token for, in the order of the table. -/
def spelled_operators : List tokenizer.Operator :=
  [[.LtEqGt], [.MinusGtGt], [.HashGtGt],
    [.LtEq, .GtEq, .NotEq .AngleBracket, .NotEq .Bang, .ShiftLeft, .ShiftRight, .Concat, .AmpAmp],
    [.QuestionPipe, .QuestionAmp, .AtQuestion, .AtAt, .HashGt, .HashMinus], [.AtGt, .LtAt],
    [.MinusGt], [.Arrow], [.PipeArrow], [.EqEq], [.SlashSlash], [.CaretAt],
    [.Plus, .Minus, .Star, .Slash, .Percent, .Caret, .Lt, .Gt, .Eq, .Tilde, .Bang, .Amp, .Pipe],
    [.Hash], [.Question]].flatten

theorem gated_eq_filter {on : Bool} {ops : List tokenizer.Operator}
    (h : ∀ op ∈ ops, operator_enabled features op = on) :
    (bif on then ops else []) = ops.filter (operator_enabled features) := by
  cases on with
  | true => exact (List.filter_eq_self.mpr h).symm
  | false => exact (List.filter_eq_nil_iff.mpr fun op hop => by simp [h op hop]).symm

/-- The table holds the operators that are enabled. -/
theorem known_operators_eq :
    known_operators features = spelled_operators.filter (operator_enabled features) := by
  unfold spelled_operators known_operators
  simp only [List.flatten_cons, List.flatten_nil, List.append_nil, List.append_assoc,
    List.filter_append]
  repeat' apply congrArg₂ (· ++ ·)
  all_goals first
    | rfl
    | exact gated_eq_filter fun op hop => by
        simp only [List.mem_cons, List.not_mem_nil, or_false] at hop
        rcases hop with rfl | rfl | rfl | rfl | rfl | rfl <;> rfl

theorem mem_known_operators (op : tokenizer.Operator) :
    op ∈ known_operators features ↔ operator_enabled features op = true := by
  rw [known_operators_eq, List.mem_filter]
  refine ⟨fun h => h.2, fun h => ⟨?_, h⟩⟩
  cases op with
  | NotEq spelling => cases spelling <;> decide
  | ColonEquals => cases h
  | Custom text => cases h
  | _ => decide

/-- Operators with a token of their own are spelled differently. -/
theorem text_injective {op op' : tokenizer.Operator} (hop : operator_enabled features op = true)
    (hop' : operator_enabled features op' = true) (h : op.text = op'.text) : op = op' := by
  have hspelled : (spelled_operators.map Operator.text).Nodup := by decide +kernel
  rw [← mem_known_operators, known_operators_eq, List.mem_filter] at hop hop'
  exact List.inj_on_of_nodup_map hspelled hop.1 hop'.1 h

/-- The table of the runs has the operators that are enabled, by their spelling. -/
theorem known_operator_token_iff {run : List Char} {op : tokenizer.Operator} :
    known_operator_token features run = some op ↔
      operator_enabled features op = true ∧ op.text = run := by
  unfold known_operator_token
  constructor
  · intro h
    exact ⟨mem_known_operators op |>.mp (List.mem_of_find?_eq_some h), by
      simpa using List.find?_some h⟩
  · rintro ⟨hop, rfl⟩
    cases hfind : (known_operators features).find? fun op' => op'.text == op.text with
    | none =>
      have hnone := List.find?_eq_none.mp hfind op ((mem_known_operators op).mpr hop)
      simp at hnone
    | some op' =>
      have hop' := (mem_known_operators op').mp (List.mem_of_find?_eq_some hfind)
      have htext : op'.text = op.text := by simpa using List.find?_some hfind
      rw [text_injective hop' hop htext]

/-- What stops a run: a character of no operator, a comment or a sign that is not permitted. -/
theorem operator_run_stops {cs : List Char} {c : Char} {rest : List Char}
    (h : cs = operator_run features cs ++ c :: rest) :
    is_operator_char features c = true → starts_comment c rest = true := by
  intro hop
  induction cs with
  | nil => simp at h
  | cons d cs ih =>
    rw [operator_run] at h
    split at h
    · exact ih (List.cons.inj h).2
    · rename_i hstop
      obtain ⟨rfl, rfl⟩ := List.cons.inj h
      simpa [hop] using hstop

theorem custom_operator_run_stops {lead : Char} {cs : List Char} {c : Char} {rest : List Char}
    (h : lead :: cs = custom_operator_run features lead cs ++ c :: rest)
    (hop : is_operator_char features c = true) :
    starts_comment c rest = true ∨ is_sign_char c = true ∧
      ∀ d ∈ custom_operator_run features lead cs, operator_char_allows_trailing_sign d = false := by
  unfold custom_operator_run at h ⊢
  dsimp only at h ⊢
  split at h
  · exact .inl (operator_run_stops (List.cons.inj h).2 hop)
  · rename_i hallows
    have hnone : ∀ d ∈ lead :: operator_run features cs,
        operator_char_allows_trailing_sign d = false := by simpa using hallows
    have hcs := (List.cons.inj h).2
    obtain ⟨behind, hbehind⟩ := @operator_run_start features cs
    rw [if_neg hallows]
    cases htail : (operator_run features cs).rtakeWhile is_sign_char with
    | nil =>
      left
      have hself : (operator_run features cs).rdropWhile is_sign_char = operator_run features cs := by
        have hsplit := List.rdropWhile_append_rtakeWhile (p := is_sign_char)
          (l := operator_run features cs)
        rwa [htail, List.append_nil] at hsplit
      rw [hself] at hcs
      exact operator_run_stops hcs hop
    | cons e tail =>
      right
      have hsplit := List.rdropWhile_append_rtakeWhile (p := is_sign_char)
        (l := operator_run features cs)
      have hsign : is_sign_char e = true := List.mem_rtakeWhile_imp (p := is_sign_char)
        (l := operator_run features cs) (by simp [htail])
      have hrest : (operator_run features cs).rdropWhile is_sign_char ++ (e :: tail ++ behind) =
          (operator_run features cs).rdropWhile is_sign_char ++ c :: rest := by
        rw [← List.append_assoc, ← htail, hsplit, hbehind]
        exact hcs
      obtain rfl : e = c := (List.cons.inj (List.append_cancel_left hrest)).1
      refine ⟨hsign, fun d hd => hnone d ?_⟩
      obtain rfl | hd := List.mem_cons.mp hd
      · exact .head _
      · exact .tail _ ((List.rdropWhile_prefix is_sign_char _).subset hd)

/-- The characters that a run takes wherever they stand in it. -/
theorem custom_operator_run_takes {lead : Char} {cs : List Char} {c : Char} {rest : List Char}
    (h : lead :: cs = custom_operator_run features lead cs ++ c :: rest) :
    c ∉ ['>', '=', '<', '@', '|', '&'] := by
  intro hc
  have hop : is_operator_char features c = true := by
    simp only [List.mem_cons, List.not_mem_nil, or_false] at hc
    obtain rfl | rfl | rfl | rfl | rfl | rfl := hc <;> rfl
  simp only [List.mem_cons, List.not_mem_nil, or_false] at hc
  obtain hcomment | ⟨hsign, -⟩ := custom_operator_run_stops h hop
  · obtain rfl | rfl | rfl | rfl | rfl | rfl := hc <;> cases hcomment
  · obtain rfl | rfl | rfl | rfl | rfl | rfl := hc <;> cases hsign

/-! ### Bytes -/

def text_at (cursor : Cursor) : List Char := cursor.rest.map ascii_char

theorem ascii_char_eq_iff {b : SourceByte} {c : Char} (hc : c.toNat < 0x80) :
    ascii_char b = c ↔ b.byte = ascii c := by
  have hbyte : b.byte.toNat < 256 := b.byte.toNat_lt
  have hchar : (ascii_char b).toNat = b.byte.toNat := by
    have hvalid : b.byte.toNat.isValidChar := .inl (by omega)
    simp only [ascii_char, Char.ofNat, hvalid, dite_true]
    rfl
  rw [← Char.toNat_inj, hchar, ← UInt8.toNat_inj]
  show _ ↔ _ = (UInt8.ofNat c.toNat).toNat
  rw [UInt8.toNat_ofNat_of_lt' (show c.toNat < 256 by omega)]

theorem peek_nth_eq_iff {cursor : Cursor} {n : Nat} {c : Char} (hc : c.toNat < 0x80) :
    (cursor.peek_nth n == some (ascii c)) = ((text_at cursor)[n]? == some c) := by
  rw [Bool.eq_iff_iff, beq_iff_eq, beq_iff_eq]
  unfold Cursor.peek_nth text_at
  rw [List.getElem?_map]
  cases cursor.rest[n]? with
  | none => simp
  | some b => simp [ascii_char_eq_iff hc]

/-! ### Agreement -/

/-- The dialect with custom operators, or without them. -/
def with_custom (features : FeatureSet) (on : Bool) : FeatureSet :=
  { features with operator_syntax := { features.operator_syntax with custom_operators := on } }

def run_at (features : FeatureSet) (cursor : Cursor) : List Char :=
  match text_at cursor with
  | [] => []
  | lead :: behind => custom_operator_run features lead behind

/-- Where the run spells an operator with a token of its own, that is the token with custom
    operators and without them. -/
def OperatorsAgree (features : FeatureSet) (cursor : Cursor) : Prop :=
  ∀ op, operator_enabled features op = true → op.text = run_at features cursor →
    scan_operator (with_custom features true) cursor =
      scan_operator (with_custom features false) cursor

/-- A comment behind an operator begins like the rest of a longer one. -/
def CutByComment (features : FeatureSet) (text : List Char) : Prop :=
  features.operator_syntax.integer_divide_slash = true ∧ ['/', '/', '*'] <+: text ∨
    features.operator_syntax.jsonb_operators = true ∧ features.hash_bitwise_xor = true ∧
      ['#', '-', '-'] <+: text

/-- The fixed operators take the spelling whole where no character behind it goes on with it. -/
theorem fixed_operator_of_run {cursor : Cursor} {op : tokenizer.Operator} {rest : List Char}
    (hop : operator_enabled features op = true) (htext : text_at cursor = op.text ++ rest)
    (hnext : ∀ c ∈ ['>', '=', '<', '@', '|', '&'], rest[0]? ≠ some c)
    (hslash : op = .Slash → features.operator_syntax.integer_divide_slash = true →
      rest[0]? ≠ some '/')
    (hhash : op = .Hash → features.operator_syntax.jsonb_operators = true →
      rest[0]? ≠ some '-') :
    fixed_operator features cursor = some (op, op.text.length) := by
  have hhead : cursor.rest.head?.map ascii_char = (op.text ++ rest).head? := by
    rw [← htext, text_at, List.head?_map]
  have hpeek (n : Nat) (c : Char) (hc : c.toNat < 0x80) :
      (cursor.peek_nth n == some (ascii c)) = ((op.text ++ rest)[n]? == some c) := by
    rw [peek_nth_eq_iff hc, htext]
  have hgt : rest[0]? ≠ some '>' := hnext _ (by decide)
  have heq : rest[0]? ≠ some '=' := hnext _ (by decide)
  have hlt : rest[0]? ≠ some '<' := hnext _ (by decide)
  have hat : rest[0]? ≠ some '@' := hnext _ (by decide)
  have hpipe : rest[0]? ≠ some '|' := hnext _ (by decide)
  have hamp : rest[0]? ≠ some '&' := hnext _ (by decide)
  unfold fixed_operator
  dsimp only
  simp only [hhead, hpeek _ '>' (by decide), hpeek _ '/' (by decide), hpeek _ '=' (by decide),
    hpeek _ '<' (by decide), hpeek _ '@' (by decide), hpeek _ '?' (by decide),
    hpeek _ '-' (by decide), hpeek _ '|' (by decide), hpeek _ '&' (by decide)]
  cases op with
  | NotEq spelling => cases spelling <;> simp [Operator.text]
  | ColonEquals => cases hop
  | Custom text => cases hop
  | Slash =>
    have hslash := hslash rfl
    simp only [Operator.text, List.cons_append, List.nil_append, List.head?_cons]
    simp_all
  | Hash =>
    have hhash := hhash rfl
    simp only [Operator.text, List.cons_append, List.nil_append, List.head?_cons]
    simp_all
  | _ =>
    simp only [operator_enabled] at hop
    simp [Operator.text, *]

/-! Neither scanner looks at what chooses between them. -/

theorem custom_operator_run_with_custom (on : Bool) (lead : Char) (cs : List Char) :
    custom_operator_run (with_custom features on) lead cs =
      custom_operator_run features lead cs := by
  have hrun : operator_run (with_custom features on) cs = operator_run features cs := by
    induction cs with
    | nil => rfl
    | cons c cs ih =>
      rw [operator_run, operator_run, ih]
      rfl
  unfold custom_operator_run
  rw [hrun]

theorem text_ne_nil {op : tokenizer.Operator} (hop : operator_enabled features op = true) :
    op.text ≠ [] := by
  cases op with
  | NotEq spelling => cases spelling <;> simp [Operator.text]
  | Custom text => cases hop
  | _ => simp [Operator.text]

theorem scan_operator_custom {cursor : Cursor} {op : tokenizer.Operator}
    (hop : operator_enabled features op = true) (htext : op.text = run_at features cursor) :
    scan_operator (with_custom features true) cursor =
      .ok (emit (.Operator op) cursor (cursor.advance_bytes op.text.length)) := by
  have hknown : known_operator_token (with_custom features true) (run_at features cursor) = some op :=
    known_operator_token_iff.mpr ⟨by cases op <;> exact hop, htext⟩
  have hcustom : custom_operator (with_custom features true) cursor = some (op, op.text.length) := by
    have hne := text_ne_nil hop
    rw [htext] at hne ⊢
    unfold custom_operator
    unfold run_at text_at at hknown hne ⊢
    cases hrest : cursor.rest.map ascii_char with
    | nil => simp [hrest] at hne
    | cons lead behind =>
      rw [hrest] at hknown
      dsimp only at hknown ⊢
      rw [custom_operator_run_with_custom, hknown]
  unfold scan_operator
  rw [hcustom]
  rfl

theorem scan_operator_fixed {cursor : Cursor} {op : tokenizer.Operator} {width : Nat}
    (h : fixed_operator features cursor = some (op, width)) :
    scan_operator (with_custom features false) cursor =
      .ok (emit (.Operator op) cursor (cursor.advance_bytes width)) := by
  unfold scan_operator
  rw [show fixed_operator (with_custom features false) cursor = some (op, width) from h]
  rfl

/-- Where a comment cuts a longer operator, the run is the shorter one. -/
theorem not_agree_of_longer {cursor : Cursor} (op op' : tokenizer.Operator) (rest : List Char)
    (hop : operator_enabled features op = true) (hop' : operator_enabled features op' = true)
    (hrun : op.text = run_at features cursor) (htext : text_at cursor = op'.text ++ rest)
    (hnext : ∀ c ∈ ['>', '=', '<', '@', '|', '&'], rest[0]? ≠ some c)
    (hne : op ≠ op') (hslash : op' ≠ .Slash) (hhash : op' ≠ .Hash) :
    ¬ OperatorsAgree features cursor := by
  intro h
  have hfixed := fixed_operator_of_run hop' htext hnext (fun h => absurd h hslash)
    (fun h => absurd h hhash)
  have hsame := h op hop hrun
  rw [scan_operator_custom hop hrun, scan_operator_fixed hfixed] at hsame
  have hkind := congrArg Token.kind (Prod.mk.inj (Except.ok.inj hsame)).1
  exact hne (TokenKind.Operator.inj hkind)

theorem operators_agree_iff (features : FeatureSet) (cursor : Cursor) :
    OperatorsAgree features cursor ↔ ¬ CutByComment features (text_at cursor) := by
  constructor
  · have hnext {c : Char} {rest : List Char} (hc : c ∉ ['>', '=', '<', '@', '|', '&']) :
        ∀ d ∈ ['>', '=', '<', '@', '|', '&'], (c :: rest)[0]? ≠ some d := by
      rintro d hd heq
      exact hc (Option.some.inj heq ▸ hd)
    rintro h (⟨hdivide, rest, htext⟩ | ⟨hjsonb, hxor, rest, htext⟩)
    · have hrun : Operator.text .Slash = run_at features cursor := by
        rw [run_at, ← htext]
        rfl
      exact not_agree_of_longer .Slash .SlashSlash ('*' :: rest) rfl hdivide hrun htext.symm
        (hnext (by decide)) (by simp) (by simp) (by simp) h
    · have hrun : Operator.text .Hash = run_at features cursor := by
        rw [run_at, ← htext]
        simp [custom_operator_run, operator_run, starts_comment, Operator.text]
      exact not_agree_of_longer .Hash .HashMinus ('-' :: rest) hxor hjsonb hrun htext.symm
        (hnext (by decide)) (by simp) (by simp) (by simp) h
  · intro hcut op hop hrun
    have hstop : ∃ rest, text_at cursor = run_at features cursor ++ rest ∧
        ∀ c behind, rest = c :: behind → c ∉ ['>', '=', '<', '@', '|', '&'] ∧
          (is_operator_char features c = true → starts_comment c behind = true ∨
            is_sign_char c = true ∧ ∀ d ∈ run_at features cursor,
              operator_char_allows_trailing_sign d = false) := by
      unfold run_at
      cases text_at cursor with
      | nil => exact ⟨[], rfl, by simp⟩
      | cons lead cs =>
        obtain ⟨rest, hrest⟩ := @custom_operator_run_start features lead cs
        refine ⟨rest, hrest.symm, ?_⟩
        rintro c behind rfl
        exact ⟨custom_operator_run_takes hrest.symm, custom_operator_run_stops hrest.symm⟩
    obtain ⟨rest, htext, hstop⟩ := hstop
    rw [← hrun] at htext hstop
    have hfixed : fixed_operator features cursor = some (op, op.text.length) := by
      refine fixed_operator_of_run hop htext ?_ ?_ ?_
      · intro c hc hhead
        cases rest with
        | nil => cases hhead
        | cons d behind =>
          obtain rfl : d = c := Option.some.inj hhead
          exact (hstop d behind rfl).1 hc
      · rintro rfl hdivide hhead
        cases rest with
        | nil => cases hhead
        | cons d behind =>
          obtain rfl : d = '/' := Option.some.inj hhead
          obtain hcomment | ⟨hsign, -⟩ := (hstop _ behind rfl).2 rfl
          · cases behind with
            | nil => cases hcomment
            | cons e behind =>
              obtain rfl : e = '*' := by simpa [starts_comment] using hcomment
              exact hcut (.inl ⟨hdivide, behind, htext.symm⟩)
          · cases hsign
      · rintro rfl hjsonb hhead
        cases rest with
        | nil => cases hhead
        | cons d behind =>
          obtain rfl : d = '-' := Option.some.inj hhead
          obtain hcomment | ⟨-, hallows⟩ := (hstop _ behind rfl).2 rfl
          · cases behind with
            | nil => cases hcomment
            | cons e behind =>
              obtain rfl : e = '-' := by simpa [starts_comment] using hcomment
              exact hcut (.inr ⟨hjsonb, hop, behind, htext.symm⟩)
          · cases hallows '#' (.head _)
    rw [scan_operator_custom hop hrun, scan_operator_fixed hfixed]

/-- A run is the operator of the rule, and the two scanners agree on it if and only if no comment
    that cuts it begins like the rest of a longer operator. -/
theorem operator_rule_iff (features : FeatureSet) (cursor : Cursor) :
    MunchRule features (text_at cursor) (run_at features cursor) ∧ OperatorsAgree features cursor ↔
      ¬ CutByComment features (text_at cursor) := by
  rw [operators_agree_iff, and_iff_right_iff_imp]
  rintro -
  unfold run_at
  cases text_at cursor with
  | cons lead behind => exact custom_operator_run_rule lead behind
  | nil =>
    refine ⟨0, 0, ⟨⟨le_rfl, fun i hpos hi => absurd hi (Nat.not_lt_zero i)⟩, fun n hn => hn.1⟩,
      ⟨⟨le_rfl, fun hlong => absurd hlong (by simp)⟩, fun m hm => hm.1⟩, rfl⟩

/-- A division in front of a block comment is an integer division where operators are fixed. -/
theorem duckdb_division_cut_by_comment :
    let cursor : Cursor := .new (encode "//**/2".toList)
    run_at .DUCKDB cursor = Operator.text .Slash ∧
      scan_operator (with_custom .DUCKDB true) cursor =
        .ok (⟨.Operator .Slash, ⟨0, 1⟩⟩, cursor.advance_bytes 1) ∧
      scan_operator (with_custom .DUCKDB false) cursor =
        .ok (⟨.Operator .SlashSlash, ⟨0, 2⟩⟩, cursor.advance_bytes 2) ∧
      ¬ OperatorsAgree .DUCKDB cursor := by
  have hcustom : scan_operator (with_custom .DUCKDB true) (.new (encode "//**/2".toList)) =
      .ok (⟨.Operator .Slash, ⟨0, 1⟩⟩, (Cursor.new (encode "//**/2".toList)).advance_bytes 1) := by
    decide +kernel
  have hfixed : scan_operator (with_custom .DUCKDB false) (.new (encode "//**/2".toList)) =
      .ok (⟨.Operator .SlashSlash, ⟨0, 2⟩⟩,
        (Cursor.new (encode "//**/2".toList)).advance_bytes 2) := by
    decide +kernel
  have hrun : run_at .DUCKDB (.new (encode "//**/2".toList)) = Operator.text .Slash := by
    decide +kernel
  refine ⟨hrun, hcustom, hfixed, fun h => ?_⟩
  have hsame := h .Slash rfl hrun.symm
  rw [hcustom, hfixed] at hsame
  cases hsame

end squonk.tokenizer.scan
