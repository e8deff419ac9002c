import Squonk.Render.Reparse

/-!
# Where canonical text is read back

The canonical text of a tree of operators is read back exactly when each node is well placed: no
prefix operator at the end of a left operand reads on into its parent, no operator takes the first
word of its right operand for a part of itself, and no two signs fuse.
-/

open squonk.ast squonk.tokenizer squonk.dialect squonk.precedence squonk.parser.expr climbing

namespace squonk.render

variable {features : FeatureSet} {ranks : List BindingPower}

/-- The prefix operators whose operands are still open where the text of a tree ends. -/
def open_prefixes (bp : BindingPowerTable) : Expr → List UnaryOperator
  | .BinaryOp _ op r =>
    if binary_child_needs_parens bp op r .Right then [] else open_prefixes bp r
  | .UnaryOp op e => op :: if prefix_operand_needs_parens bp op e then [] else open_prefixes bp e
  | _ => []

/-- The first token of an operand, with the parentheses that it needs. -/
def first_token (bp : BindingPowerTable) (needed : Bool) (e : Expr) : Option Token :=
  leading (.groupIf needed (written bp e))

/-- Each node stands where its text is read as that node. -/
def Placed (features : FeatureSet) : Expr → Prop
  | .BinaryOp l op r =>
    let bp := features.binding_powers
    -- the prefix operators open in the left operand stop in front of the operator
    (binary_child_needs_parens bp op l .Left = false → ∀ q ∈ open_prefixes bp l,
      (rank features (.inl ( infix_of op))).left < features.prefix_binding_power q) ∧
    -- the right operand does not start with what the operator reads as its own
    (∀ t, first_token bp (binary_child_needs_parens bp op r .Right) r = some t →
      takes features ( infix_of op) t = false) ∧
    -- `IS` as an equality is read at the rank of the predicates
    (is_distinct_test op = true → ∀ l' op' r', r = .BinaryOp l' op' r' →
      is_equality op' = true → bp.predicate = bp.comparison) ∧
    Placed features l ∧ Placed features r
  | .UnaryOp op e =>
    -- a run of operator characters is one operator
    (features.operator_syntax.custom_operators = true → op ≠ .Not → ∀ sign,
      first_token features.binding_powers
        (prefix_operand_needs_parens features.binding_powers op e) e ≠ some (.operator sign)) ∧
    Placed features e
  | _ => True

/-! ## The spines of canonical text -/

/-- An operator's own power bounds the left spine of its text. -/
theorem left_spine_written (hgrouping : Grouping features ranks) {p : Nat} {e : Expr}
    (h : Readable features e)
    (hp : ∀ l op r, e = .BinaryOp l op r → p ≤ (reader features).left ( infix_of op)) :
    (reader features).LeftSpine p (written features.binding_powers e) := by
  induction e with
  | BinaryOp l op r ihl _ =>
    have hop := hp l op r rfl
    refine ⟨hop, ?_⟩
    cases hneeds : binary_child_needs_parens features.binding_powers op l .Left with
    | true => exact trivial
    | false =>
      refine ihl h.2.2.1 ?_
      rintro l' op' r' rfl
      exact Nat.le_trans hop (left_le_left_of_free hgrouping h.1 h.2.2.1.1 hneeds)
  | _ => exact trivial

/-- Only the prefix operators at its right end bound the right spine of a tree's text. -/
theorem right_spine_written (hgrouping : Grouping features ranks) {p : Nat} {e : Expr}
    (h : Readable features e)
    (hp : ∀ l op r, e = .BinaryOp l op r → p < (reader features).right ( infix_of op)) :
    (reader features).RightSpine p (written features.binding_powers e) ↔
      ∀ q ∈ open_prefixes features.binding_powers e, p < features.prefix_binding_power q := by
  induction e with
  | BinaryOp l op r _ ihr =>
    have hop := hp l op r rfl
    rw [written, Reader.RightSpine, open_prefixes]
    cases hneeds : binary_child_needs_parens features.binding_powers op r .Right with
    | true => simpa [Reader.RightSpine] using hop
    | false =>
      have hright := ihr h.2.2.2 (by
        rintro l' op' r' rfl
        exact Nat.lt_trans hop (right_lt_right_of_free hgrouping h.2.2.2.1 hneeds))
      rw [Cst.groupIf_false, hright]
      simpa using fun _ => hop
  | UnaryOp op e ih =>
    rw [written, Reader.RightSpine, open_prefixes]
    cases hneeds : prefix_operand_needs_parens features.binding_powers op e with
    | true => simp [Reader.RightSpine, reader, Prefix.power]
    | false =>
      rw [List.forall_mem_cons, Cst.groupIf_false]
      refine and_congr_right fun hpower => ih h.2.2 ?_
      rintro l' op' r' rfl
      have hle := prefix_le_of_free hneeds
      have hwidth := hgrouping.width _ (hgrouping.mem op' h.2.2.1)
      have hpower' : p < features.prefix_binding_power op := hpower
      rw [right_infix_of]
      omega
  | _ => simp [written, Reader.RightSpine, open_prefixes]

theorem blocked_infix_of (c : Written) (op : BinaryOperator) :
    (reader features).blocked c (.inl ( infix_of op)) =
      reject_nonassoc_chain features (erase features c) (rank features (.inl ( infix_of op)))
        c.isGroup := by
  change (checks_chain (.inl ( infix_of op)) && _) = _
  rw [checks_chain_infix_of, Bool.true_and]

/-- No operand without parentheses chains with an operator that does not associate. -/
theorem free_written (hgrouping : Grouping features ranks) {l r : Expr} {op : BinaryOperator}
    (h : Readable features (.BinaryOp l op r)) :
    (reader features).blocked (.groupIf
      (binary_child_needs_parens features.binding_powers op l .Left)
      (written features.binding_powers l)) (.inl ( infix_of op)) = false := by
  obtain ⟨-, herase⟩ := canonical_written features.binding_powers h.2.2.1
  have hchain : ∀ grouped, (grouped = false →
      binary_child_needs_parens features.binding_powers op l .Left = false) →
      reject_nonassoc_chain features l (rank features (.inl ( infix_of op))) grouped = false := by
    intro grouped hgrouped
    cases grouped with
    | true => simp [reject_nonassoc_chain]
    | false =>
      cases l with
      | BinaryOp l' op' r' =>
        exact not_chained_of_free hgrouping h.1 h.2.2.1.1 (hgrouped rfl) l' r'
      | Column => simp [reject_nonassoc_chain, lhs_chains_nonassoc]
      | Literal => simp [reject_nonassoc_chain, lhs_chains_nonassoc]
      | UnaryOp => simp [reject_nonassoc_chain, lhs_chains_nonassoc]
      | _ => exact absurd h.2.2.1 id
  have hblocked := hchain (Cst.groupIf
    (binary_child_needs_parens features.binding_powers op l .Left)
    (written features.binding_powers l)).isGroup (by
      intro hgroup
      cases hneeds : binary_child_needs_parens features.binding_powers op l .Left with
      | true => rw [hneeds] at hgroup; cases hgroup
      | false => rfl)
  rw [blocked_infix_of, erase_groupIf, herase]
  exact hblocked

/-- The renderer keeps signs apart: every operator of two operands is below them. -/
theorem signs_apart_written (hgrouping : Grouping features ranks) {e : Expr}
    (h : Readable features e) : SignsApart (written features.binding_powers e) := by
  have hgroup : ∀ {needed : Bool} {c : Written}, SignsApart c → SignsApart (.groupIf needed c) := by
    intro needed c hc
    cases needed <;> exact hc
  have hother : ∀ {c : Written} {t : Token}, leading c = some t → (∀ op, t ≠ .operator op) →
      leading c ≠ some (.operator .Minus) ∧ leading c ≠ some (.operator .Plus) := by
    intro c t hlead ht
    rw [hlead]
    exact ⟨fun heq => ht _ (Option.some.inj heq), fun heq => ht _ (Option.some.inj heq)⟩
  induction e with
  | BinaryOp l op r ihl ihr => exact ⟨hgroup (ihl h.2.2.1), hgroup (ihr h.2.2.2)⟩
  | UnaryOp op e ih =>
    refine ⟨?_, hgroup (ih h.2.2)⟩
    rintro op' hop' hsign
    obtain rfl := Prefix.unary.inj hop'
    cases hneeds : prefix_operand_needs_parens features.binding_powers op e with
    | true => exact hother rfl fun op => Token.noConfusion
    | false =>
      cases e with
      | Column name => exact hother rfl (atom_ne_operator (.column name))
      | Literal value => exact hother rfl (atom_ne_operator (.literal value))
      | BinaryOp l' op' r' =>
        have hbelow := hgrouping.sign _ (hgrouping.mem op' h.2.2.1) op hsign
        have hle := prefix_le_of_free hneeds
        omega
      | UnaryOp inner e' =>
        have hinner : is_sign inner = false := by
          simpa [prefix_operand_needs_parens, hsign] using hneeds
        cases inner with
        | Minus => cases hinner
        | Plus => cases hinner
        | Not => exact hother rfl fun op => Token.noConfusion
        | Prior => exact hother rfl fun op => Token.noConfusion
        | BitwiseNot => exact ⟨fun heq => (by cases heq), fun heq => (by cases heq)⟩
      | _ => exact absurd h.2.2 id
  | _ => exact trivial

/-! ## What is well placed -/

/-- What the rules for a right operand rely on: only the tests in words have the rank of the
predicates, where that is not the comparisons'. -/
def TestsApart (features : FeatureSet) : Prop :=
  ∀ op, features.binding_power op = features.binding_powers.predicate →
    features.binding_powers.predicate ≠ features.binding_powers.comparison →
    is_distinct_test op = true

theorem rank_of_distinct_test {op : BinaryOperator} (h : is_distinct_test op = true) :
    features.binding_power op = features.binding_powers.predicate := by
  cases op with
  | IsDistinctFrom spelling => cases spelling <;> first | rfl | cases h
  | IsNotDistinctFrom spelling => cases spelling <;> first | rfl | cases h
  | _ => cases h

/-- A left operand stops in front of its parent exactly if its open prefix operators do. -/
theorem left_placed_iff (hgrouping : Grouping features ranks) {l r : Expr} {op : BinaryOperator}
    (h : Readable features (.BinaryOp l op r)) :
    (reader features).RightSpine ((reader features).left ( infix_of op))
        (.groupIf (binary_child_needs_parens features.binding_powers op l .Left)
          (written features.binding_powers l)) ↔
      (binary_child_needs_parens features.binding_powers op l .Left = false →
        ∀ q ∈ open_prefixes features.binding_powers l,
          (rank features (.inl ( infix_of op))).left < features.prefix_binding_power q) := by
  cases hneeds : binary_child_needs_parens features.binding_powers op l .Left with
  | true => exact iff_of_true trivial fun hfree => (by cases hfree)
  | false =>
    have hspine := right_spine_written hgrouping (p := (reader features).left ( infix_of op))
      h.2.2.1 (by
        rintro l' op' r' rfl
        exact left_lt_right_of_free hgrouping h.1 h.2.2.1.1 hneeds)
    rw [Cst.groupIf_false, hspine]
    exact ⟨fun hall _ => hall, fun hall => hall rfl⟩

/-- A right operand is as tight as it is read, unless it is an equality `IS` behind a test of a
lower rank. -/
theorem right_placed_iff (hgrouping : Grouping features ranks) (htests : TestsApart features)
    {l r : Expr} {op : BinaryOperator} (h : Readable features (.BinaryOp l op r)) :
    (reader features).LeftSpine ((reader features).right ( infix_of op))
        (.groupIf (binary_child_needs_parens features.binding_powers op r .Right)
          (written features.binding_powers r)) ↔
      (is_distinct_test op = true → ∀ l' op' r', r = .BinaryOp l' op' r' → is_equality op' = true →
        features.binding_powers.predicate = features.binding_powers.comparison) := by
  have hop := hgrouping.mem op h.1
  constructor
  · rintro hspine htest l' op' r' rfl hequality
    have hrank := @rank_of_distinct_test features op htest
    have hchild := @binding_power_equality features op' hequality
    have hadmits := h.2.2.2.1
    have hwidth := hgrouping.width _ hop
    rw [hrank] at hop hwidth
    cases hneeds : binary_child_needs_parens features.binding_powers op (.BinaryOp l' op' r')
        .Right with
    | true =>
      have hranked := hgrouping.equality (general_equality hadmits hequality)
      have hcomparison := hgrouping.mem op' hadmits
      rw [hchild] at hcomparison
      refine hgrouping.assoc_eq _ hop _ hcomparison (Nat.le_antisymm hranked.left_le ?_)
      by_contra hlt
      have hapart := hgrouping.apart _ hop _ hcomparison (by omega)
      have hparens := left_lt_of_parens (hgrouping.width _ (hgrouping.mem op h.1)) hneeds
      rw [hrank, hchild] at hparens
      omega
    | false =>
      rw [hneeds] at hspine
      have hle : (reader features).right ( infix_of op) ≤ (reader features).left ( infix_of op') :=
        hspine.1
      rw [right_infix_of, left_infix_of, hequality, if_pos rfl, hrank] at hle
      omega
  · intro hspare
    cases hneeds : binary_child_needs_parens features.binding_powers op r .Right with
    | true => exact trivial
    | false =>
      refine left_spine_written hgrouping h.2.2.2 ?_
      rintro l' op' r' rfl
      refine right_le_left_of_free hgrouping h.1 h.2.2.2.1 hneeds fun hequality hrank => ?_
      by_contra hne
      exact hne (hspare (htests op hrank hne) l' op' r' rfl hequality)

/-- The text of a tree is made to be read back exactly if its nodes are well placed. -/
theorem fits_written_iff (hgrouping : Grouping features ranks) (htests : TestsApart features)
    {e : Expr} (h : Readable features e) :
    Fits features (written features.binding_powers e) ∧
      Unfused features (written features.binding_powers e) ↔ Placed features e := by
  have hfits : ∀ needed c, Fits features (.groupIf needed c) ↔ Fits features c := by
    intro needed c
    cases needed <;> rfl
  have hunfused : ∀ needed c, Unfused features (.groupIf needed c) ↔ Unfused features c := by
    intro needed c
    cases needed <;> rfl
  induction e with
  | Column => exact iff_of_true ⟨trivial, trivial⟩ trivial
  | Literal => exact iff_of_true ⟨trivial, trivial⟩ trivial
  | BinaryOp l op r ihl ihr =>
    rw [Placed, ← left_placed_iff hgrouping h, ← right_placed_iff hgrouping htests h,
      written, Fits, Unfused, hfits, hfits, hunfused, hunfused]
    have hfree := free_written hgrouping h
    constructor
    · rintro ⟨⟨hl, hright, -, htakes, hleft, hr⟩, hfusedL, hfusedR⟩
      exact ⟨hright, htakes, hleft, (ihl h.2.2.1).mp ⟨hl, hfusedL⟩, (ihr h.2.2.2).mp ⟨hr, hfusedR⟩⟩
    · rintro ⟨hright, htakes, hleft, hplacedL, hplacedR⟩
      obtain ⟨hl, hfusedL⟩ := (ihl h.2.2.1).mpr hplacedL
      obtain ⟨hr, hfusedR⟩ := (ihr h.2.2.2).mpr hplacedR
      exact ⟨⟨hl, hright, hfree, htakes, hleft, hr⟩, hfusedL, hfusedR⟩
  | UnaryOp op e ih =>
    rw [Placed, written, Fits, Unfused, hfits, hunfused]
    have hspine : (reader features).LeftSpine ((reader features).prePower (.unary op))
        (.groupIf (prefix_operand_needs_parens features.binding_powers op e)
          (written features.binding_powers e)) := by
      cases hneeds : prefix_operand_needs_parens features.binding_powers op e with
      | true => exact trivial
      | false =>
        refine left_spine_written hgrouping h.2.2 ?_
        rintro l' op' r' rfl
        exact prefix_le_left_of_free hgrouping h.2.2.1 hneeds
    have hsigns : (∀ sign op', (Prefix.unary op).token = .operator sign →
        first_token features.binding_powers
          (prefix_operand_needs_parens features.binding_powers op e) e ≠ some (.operator op')) ↔
        (op ≠ .Not → ∀ sign, first_token features.binding_powers
          (prefix_operand_needs_parens features.binding_powers op e) e ≠ some (.operator sign)) := by
      have hprior := h.1
      cases op with
      | Prior => exact absurd rfl hprior
      | Not => exact iff_of_true (fun sign op' htoken => by cases htoken) fun hnot => absurd rfl hnot
      | Minus => exact ⟨fun hall _ sign => hall _ sign rfl, fun hall _ sign _ => hall (by decide) sign⟩
      | Plus => exact ⟨fun hall _ sign => hall _ sign rfl, fun hall _ sign _ => hall (by decide) sign⟩
      | BitwiseNot =>
        exact ⟨fun hall _ sign => hall _ sign rfl, fun hall _ sign _ => hall (by decide) sign⟩
    constructor
    · rintro ⟨⟨-, he⟩, hsign, hfused⟩
      exact ⟨fun hcustom => hsigns.mp (hsign hcustom), (ih h.2.2).mp ⟨he, hfused⟩⟩
    · rintro ⟨hsign, hplaced⟩
      obtain ⟨he, hfused⟩ := (ih h.2.2).mpr hplaced
      exact ⟨⟨hspine, he⟩, fun hcustom => hsigns.mpr (hsign hcustom), hfused⟩
  | _ => exact absurd h id

/-- The canonical text of a tree of operators that the parser has built is read back as the tree
    exactly if its nodes are well placed. -/
theorem round_trips_iff (hgrouping : Grouping features ranks) (hseparated : Separated features)
    (htests : TestsApart features) {e : Expr} (h : Readable features e) :
    RoundTrips features e ↔ Placed features e := by
  obtain ⟨hcanonical, herase⟩ := canonical_written features.binding_powers h
  have hparses := parses_to_iff hgrouping hseparated hcanonical (signs_apart_written hgrouping h)
  rw [herase, text_written features.binding_powers (operators_of_readable h)] at hparses
  rw [RoundTrips, hparses, fits_written_iff hgrouping htests h]

/-! ## The dialects -/

theorem builtin_tests_apart (dialect : BuiltinDialect) : TestsApart dialect.features :=
  fun _ hrank hne => builtin_distinct_rank dialect hrank hne

/-- In every dialect, the canonical text of a tree of operators that the parser has built is read
    back as the tree exactly if its nodes are well placed. -/
theorem canonical_round_trip_iff (dialect : BuiltinDialect) {e : Expr}
    (hproduces : Produces dialect.features e) (hoperators : Operators e) :
    RoundTrips dialect.features e ↔ Placed dialect.features e :=
  round_trips_iff (builtin_grouping dialect) (builtin_separated dialect)
    (builtin_tests_apart dialect)
    (readable_of_produces (builtin_regular dialect) hproduces hoperators)

/-- Texts that are a token each, with a blank behind each of them. -/
theorem produces_of_spelled (hseparated : Separated features)
    (spelled : List (List Char × Token)) {e : Expr} {depth min_bp : Nat} {rest : List Token}
    (hspelled : ∀ text ∈ spelled, Spelled features text.1 text.2)
    (hplain : ∀ text ∈ spelled, (∀ w, text.2 ≠ .number w) ∧ ∀ w, text.2 ≠ .string w)
    (hread : parse_expr_bp features depth min_bp (spelled.map Prod.snd) = some (e, rest)) :
    Produces features e := by
  refine ⟨spelled.flatMap fun text => text.1 ++ [' '], _, depth, min_bp, rest, ?_, hread⟩
  clear hread
  induction spelled with
  | nil => rfl
  | cons text spelled ih =>
    rw [List.forall_mem_cons] at hspelled hplain
    obtain ⟨hnumber, hstring⟩ := hplain.1
    rw [List.flatMap_cons, List.append_assoc, List.singleton_append,
      tokenize_spelled hseparated.toDelimited hspelled.1 (ends_blank hnumber hstring _),
      tokenize_blank, ih hspelled.2 hplain.2]
    rfl

/-- `-(a + b)` -/
def negated_sum : Expr :=
  .UnaryOp .Minus (.BinaryOp (.Column (.Word ['a'])) .Plus (.Column (.Word ['b'])))

theorem produces_negated_sum : Produces FeatureSet.ANSI negated_sum := by
  have hword : ∀ {c : Char}, is_identifier_start c = true →
      Spelled FeatureSet.ANSI [c] (.word [c]) := spelled_letter (builtin_separated .Ansi).toDelimited
  -- - ( a + b )
  apply produces_of_spelled (builtin_separated .Ansi) [(['-'], .operator .Minus), (['('], .lparen),
    (['a'], .word ['a']), (['+'], .operator .Plus), (['b'], .word ['b']), ([')'], .rparen)]
  · simp only [List.forall_mem_cons]
    exact ⟨⟨'-', [], rfl, rfl, rfl⟩, ⟨'(', [], rfl, rfl, rfl⟩, hword rfl, ⟨'+', [], rfl, rfl, rfl⟩,
      hword rfl, ⟨')', [], rfl, rfl, rfl⟩, List.forall_mem_nil _⟩
  · simp
  · show parse_expr_bp FeatureSet.ANSI 9 0 _ = some (negated_sum, [])
    decide +kernel

theorem canonical_round_trip_negated_sum : RoundTrips FeatureSet.ANSI negated_sum := by
  refine (canonical_round_trip_iff .Ansi produces_negated_sum ⟨trivial, trivial⟩).mpr ⟨?_, ?_⟩
  · intro hcustom
    cases hcustom
  · refine ⟨(fun _ q hq => by cases hq), ?_, (fun htest => by cases htest), trivial, trivial⟩
    intro t ht
    rw [← Option.some.inj ht]
    rfl

/-- `(a * NOT b) + c` -/
def negated_factor : Expr :=
  .BinaryOp (.BinaryOp (.Column (.Word ['a'])) .Multiply (.UnaryOp .Not (.Column (.Word ['b']))))
    .Plus (.Column (.Word ['c']))

theorem produces_negated_factor : Produces FeatureSet.ANSI negated_factor := by
  have hdelimited := (builtin_separated .Ansi).toDelimited
  have hword : ∀ {c : Char}, is_identifier_start c = true →
      Spelled FeatureSet.ANSI [c] (.word [c]) := spelled_letter hdelimited
  -- ( a * NOT b ) + c
  apply produces_of_spelled (builtin_separated .Ansi) [(['('], .lparen), (['a'], .word ['a']),
    (['*'], .operator .Star), (Keyword.capitals .Not, .keyword .Not), (['b'], .word ['b']),
    ([')'], .rparen), (['+'], .operator .Plus), (['c'], .word ['c'])]
  · simp only [List.forall_mem_cons]
    exact ⟨⟨'(', [], rfl, rfl, rfl⟩, hword rfl, ⟨'*', [], rfl, rfl, rfl⟩,
      spelled_capitals hdelimited .Not, hword rfl, ⟨')', [], rfl, rfl, rfl⟩,
      ⟨'+', [], rfl, rfl, rfl⟩, hword rfl, List.forall_mem_nil _⟩
  · simp
  · show parse_expr_bp FeatureSet.ANSI 9 0 _ = some (negated_factor, [])
    decide +kernel

/-- A negated factor in front of a sum is read back negating the sum. -/
theorem canonical_negation_captures :
    Produces FeatureSet.ANSI negated_factor ∧
      expr FeatureSet.ANSI.binding_powers negated_factor = "a * NOT b + c".toList ∧
      ¬ RoundTrips FeatureSet.ANSI negated_factor := by
  refine ⟨produces_negated_factor, by decide, fun htrips => ?_⟩
  have hreadable := readable_of_produces (builtin_regular .Ansi) produces_negated_factor
    ⟨⟨trivial, trivial⟩, trivial⟩
  have hplaced := (round_trips_iff (builtin_grouping .Ansi) (builtin_separated .Ansi)
    (builtin_tests_apart .Ansi) hreadable).mp htrips
  exact absurd (hplaced.1 rfl .Not List.mem_cons_self) (by decide)

end squonk.render
