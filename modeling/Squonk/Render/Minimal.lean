import Squonk.Render.Placed

/-!
# Minimal parentheses

The canonical text of a tree of binary operators has no pair of parentheses that could be left
out, unless an equality `IS` of a lower rank follows a comparison.
-/

open squonk.ast squonk.tokenizer squonk.dialect squonk.precedence squonk.parser.expr climbing

namespace squonk.render

variable {features : FeatureSet} {ranks : List BindingPower}

/-- A tree of binary operators over atoms. -/
def Binary : Expr → Prop
  | .Column _ | .Literal _ => True
  | .BinaryOp l _ r => Binary l ∧ Binary r
  | _ => False

/-- Without any one of its pairs of parentheses, the canonical text is not read back. -/
def Minimal (features : FeatureSet) (e : Expr) : Prop :=
  ∀ d, Cst.DropsPair (written features.binding_powers e) d → ¬ ParsesTo features (text d) e

/-- No equality `IS` that is read at a lower rank follows a comparison. -/
def Sparing (features : FeatureSet) : Expr → Prop
  | .BinaryOp l op r =>
    (is_equality op = true → ∀ l' op' r', l = .BinaryOp l' op' r' →
      features.binding_power op' = features.binding_powers.comparison →
      features.binding_powers.predicate = features.binding_powers.comparison) ∧
    Sparing features l ∧ Sparing features r
  | _ => True

theorem operators_of_binary {e : Expr} (h : Binary e) : Operators e := by
  induction e with
  | Column => exact trivial
  | Literal => exact trivial
  | BinaryOp l op r ihl ihr => exact ⟨ihl h.1, ihr h.2⟩
  | _ => exact absurd h id

/-! ## Expressions without prefix operators -/

/-- The expression has no prefix operator. -/
def Unsigned : Written → Prop
  | .pre _ _ => False
  | .atom _ => True
  | .group c => Unsigned c
  | .inf l _ r => Unsigned l ∧ Unsigned r
  | .mix l _ m r => Unsigned l ∧ Unsigned m ∧ Unsigned r
  | .post l _ => Unsigned l

theorem unsigned_groupIf {needed : Bool} {c : Written} (h : Unsigned c) : Unsigned (.groupIf needed c) := by
  cases needed <;> exact h

theorem unsigned_written (bp : BindingPowerTable) {e : Expr} (h : Binary e) : Unsigned (written bp e) := by
  induction e with
  | Column => exact trivial
  | Literal => exact trivial
  | BinaryOp l op r ihl ihr => exact ⟨unsigned_groupIf (ihl h.1), unsigned_groupIf (ihr h.2)⟩
  | _ => exact absurd h id

theorem unsigned_of_drops {c d : Written} (hdrops : Cst.DropsPair c d) (h : Unsigned c) : Unsigned d := by
  induction hdrops with
  | drop => exact h
  | group _ ih => exact ih h
  | pre => exact absurd h id
  | left _ ih => exact ⟨ih h.1, h.2⟩
  | right _ ih => exact ⟨h.1, ih h.2⟩
  | mix_left _ ih => exact ⟨ih h.1, h.2⟩
  | mix_middle _ ih => exact ⟨h.1, ih h.2.1, h.2.2⟩
  | mix_right _ ih => exact ⟨h.1, h.2.1, ih h.2.2⟩
  | post _ ih => exact ih h

theorem signs_apart_of_unsigned {c : Written} (h : Unsigned c) : SignsApart c := by
  induction c with
  | pre => exact absurd h id
  | group c ih => exact ih h
  | inf l o r ihl ihr => exact ⟨ihl h.1, ihr h.2⟩
  | _ => exact trivial

theorem unfused_of_unsigned {c : Written} (h : Unsigned c) : Unfused features c := by
  induction c with
  | pre => exact absurd h id
  | group c ih => exact ih h
  | inf l o r ihl ihr => exact ⟨ihl h.1, ihr h.2⟩
  | _ => exact trivial

/-- Parentheses change neither the operators nor the tree of a canonical expression. -/
theorem canonical_of_drops {c d : Written} (hdrops : Cst.DropsPair c d) (h : Canonical features c) :
    Canonical features d ∧ erase features d = erase features c := by
  induction hdrops with
  | drop => exact ⟨h, rfl⟩
  | group _ ih => exact ih h
  | pre _ ih =>
    obtain ⟨hd, herase⟩ := ih h.2
    exact ⟨⟨h.1, hd⟩, by rw [erase, erase, herase]⟩
  | left _ ih =>
    obtain ⟨⟨op, rfl, hadmits, hlambda⟩, hl, hr⟩ := h
    obtain ⟨hl', herase⟩ := ih hl
    refine ⟨⟨⟨op, rfl, hadmits, by rwa [herase]⟩, hl', hr⟩, ?_⟩
    rw [erase, erase, herase, build_infix_of hadmits hlambda, build_infix_of hadmits hlambda]
  | right _ ih =>
    obtain ⟨hr', herase⟩ := ih h.2.2
    exact ⟨⟨h.1, h.2.1, hr'⟩, by rw [erase, erase, herase]⟩
  | mix_left => exact absurd h id
  | mix_middle => exact absurd h id
  | mix_right => exact absurd h id
  | post => exact absurd h id

/-- A binary tree's text without one of its pairs is read back exactly if it still fits. -/
theorem parses_dropped_iff (hgrouping : Grouping features ranks) (hseparated : Separated features)
    {e : Expr} (h : Readable features e) (hbinary : Binary e) {d : Written}
    (hdrops : Cst.DropsPair (written features.binding_powers e) d) :
    ParsesTo features (text d) e ↔ Fits features d := by
  obtain ⟨hcanonical, herase⟩ := canonical_written features.binding_powers h
  obtain ⟨hd, herase'⟩ := canonical_of_drops hdrops hcanonical
  have hunsigned := unsigned_of_drops hdrops (unsigned_written features.binding_powers hbinary)
  have hparses := parses_to_iff hgrouping hseparated hd (signs_apart_of_unsigned hunsigned)
  rw [herase', herase] at hparses
  rw [hparses]
  exact ⟨And.left, fun hfits => ⟨hfits, unfused_of_unsigned hunsigned⟩⟩

/-! ## Every pair is needed -/

/-- What is left of an operand without one of its pairs. -/
theorem drops_groupIf {needed : Bool} {c d : Written} (h : Cst.DropsPair (.groupIf needed c) d) :
    needed = true ∧ d = c ∨ ∃ c', d = .groupIf needed c' ∧ Cst.DropsPair c c' := by
  cases needed with
  | false => exact Or.inr ⟨d, rfl, h⟩
  | true =>
    cases h with
    | drop => exact Or.inl ⟨rfl, rfl⟩
    | group h => exact Or.inr ⟨_, rfl, h⟩

theorem fits_groupIf (needed : Bool) (c : Written) :
    Fits features (.groupIf needed c) ↔ Fits features c := by
  cases needed <;> rfl

/-- In a sparing tree, no text that lacks a pair fits. -/
theorem not_fits_of_drops (hgrouping : Grouping features ranks) {e : Expr}
    (h : Readable features e) (hbinary : Binary e) (hsparing : Sparing features e) {d : Written}
    (hdrops : Cst.DropsPair (written features.binding_powers e) d) : ¬ Fits features d := by
  induction e generalizing d with
  | Column => cases hdrops
  | Literal => cases hdrops
  | BinaryOp l op r ihl ihr =>
    obtain ⟨hspare, hsparingL, hsparingR⟩ := hsparing
    cases hdrops with
    | left hdrops =>
      rintro ⟨hl, hright, hfree, -⟩
      rcases drops_groupIf hdrops with ⟨hneeds, rfl⟩ | ⟨l', rfl, hdrops'⟩
      · cases l with
        | BinaryOp l' op' r' =>
          obtain ⟨-, herase⟩ := canonical_written features.binding_powers h.2.2.1
          have hmisread := misread_of_parens hgrouping h.1 h.2.2.1.1 hneeds
            (fun hequality hrank => hspare hequality l' op' r' rfl hrank) l' r'
          rcases hmisread with hle | hchains
          · exact absurd hright.1 (Nat.not_lt.mpr hle)
          · rw [blocked_infix_of, herase] at hfree
            exact absurd hchains (Bool.eq_false_iff.mp hfree)
        | Column => cases hneeds
        | Literal => cases hneeds
        | _ => exact absurd hbinary.1 id
      · exact ihl h.2.2.1 hbinary.1 hsparingL hdrops' ((fits_groupIf _ _).mp hl)
    | right hdrops =>
      rintro ⟨-, -, -, -, hleft, hr⟩
      rcases drops_groupIf hdrops with ⟨hneeds, rfl⟩ | ⟨r', rfl, hdrops'⟩
      · cases r with
        | BinaryOp l' op' r' =>
          have hlt := left_lt_right_of_parens hgrouping h.1 h.2.2.2.1 hneeds
          exact absurd hleft.1 (Nat.not_le.mpr hlt)
        | Column => cases hneeds
        | Literal => cases hneeds
        | _ => exact absurd hbinary.2 id
      · exact ihr h.2.2.2 hbinary.2 hsparingR hdrops' ((fits_groupIf _ _).mp hr)
  | _ => exact absurd hbinary id

/-! ## The pair that is spare -/

theorem open_prefixes_binary (bp : BindingPowerTable) {e : Expr} (h : Binary e) :
    open_prefixes bp e = [] := by
  induction e with
  | Column => rfl
  | Literal => rfl
  | BinaryOp l op r _ ihr =>
    rw [open_prefixes, ihr h.2]
    exact ite_self _
  | _ => exact absurd h id

/-- Where `IS` is read below the comparisons, operators may be postfix. -/
def PostfixEquality (features : FeatureSet) : Prop :=
  features.operator_syntax.is_general_equality = true →
    features.binding_powers.predicate ≠ features.binding_powers.comparison →
    features.operator_syntax.postfix_operators = true

/-- An expression that reads as `c` wherever `c` does: an operator that an equality `IS` stands
behind may start with something else. -/
structure Replaces (features : FeatureSet) (c d : Written) : Prop where
  fits : Fits features d
  left : ∀ p, (reader features).LeftSpine p c → (reader features).LeftSpine p d
  right : ∀ p, (reader features).RightSpine p c → (reader features).RightSpine p d
  leading : leading d = leading c ∨
    ∀ p, (reader features).LeftSpine p c → p ≤ features.binding_powers.predicate.left

theorem Replaces.groupIf {c d : Written} (h : Replaces features c d) (needed : Bool) :
    Replaces features (.groupIf needed c) (.groupIf needed d) := by
  cases needed with
  | false => exact h
  | true => exact ⟨h.fits, fun _ hp => hp, fun _ hp => hp, Or.inl rfl⟩

theorem drops_groupIf_of_drops {c d : Written} (h : Cst.DropsPair c d) (needed : Bool) :
    Cst.DropsPair (.groupIf needed c) (.groupIf needed d) := by
  cases needed with
  | false => exact h
  | true => exact .group h

theorem leading_inf {l r : Written} (h : Canonical features l) (o : Infix) :
    leading (.inf l o r) = leading l := by
  obtain ⟨t, ts, hlead, -⟩ := exists_leading h []
  rw [hlead, leading, Cst.tokens, List.head?_append]
  exact congrArg (Option.or · _) hlead

/-- A left operand may be replaced, in parentheses or not. -/
theorem replaces_left {l l' r : Written} {op : BinaryOperator}
    (hfits : Fits features (.inf l ( infix_of op) r)) (h : Replaces features l l')
    (hcanonical : Canonical features l) (hcanonical' : Canonical features l')
    (herase : erase features l' = erase features l) (hgroup : l'.isGroup = l.isGroup) :
    Replaces features (.inf l ( infix_of op) r) (.inf l' ( infix_of op) r) := by
  obtain ⟨-, hright, hfree, hbehind⟩ := hfits
  refine ⟨⟨h.fits, h.right _ hright, ?_, hbehind⟩, fun p hp => ⟨hp.1, h.left p hp.2⟩,
    fun _ hp => hp, ?_⟩
  · rw [blocked_infix_of] at hfree ⊢
    rwa [herase, hgroup]
  · rw [leading_inf hcanonical, leading_inf hcanonical']
    exact h.leading.imp id fun hall p hp => hall p hp.2

/-- A right operand may be replaced: what starts otherwise stands behind no equality, and no
operator takes it for a quantifier. -/
theorem replaces_right (hgrouping : Grouping features ranks) ( hpostfix : PostfixEquality features)
    (hequality : features.operator_syntax.is_general_equality = true)
    (hne : features.binding_powers.predicate ≠ features.binding_powers.comparison)
    {l r r' : Written} {op : BinaryOperator} (hadmits : Admits features op)
    (hfits : Fits features (.inf l ( infix_of op) r)) (h : Replaces features r r')
    (hl : Canonical features l) (hr' : Canonical features r') :
    Replaces features (.inf l ( infix_of op) r) (.inf l ( infix_of op) r') := by
  obtain ⟨hfitsL, hright, hfree, htakes, hleft, -⟩ := hfits
  refine ⟨⟨hfitsL, hright, hfree, ?_, h.left _ hleft, h.fits⟩, fun _ hp => hp,
    fun p hp => ⟨hp.1, h.right p hp.2⟩, Or.inl ?_⟩
  · intro t ht
    rcases h.leading with hsame | hbelow
    · exact htakes t (hsame ▸ ht)
    have hquantifier := not_quantifier_of_leading hgrouping hr' ht ( hpostfix hequality hne)
    have hpower := hbelow _ hleft
    cases ho : infix_of op with
    | symbol token means => simp [takes, hquantifier]
    | word keyword means => simp [takes, hquantifier]
    | equality negated =>
      -- nothing as loose as the predicates stands ungrouped behind an equality
      have hop : is_equality op = true := by
        cases op
        all_goals first
          | cases ho
          | (rename_i spelling; cases spelling <;> first | rfl | cases ho)
      have hwidth := hgrouping.width _ (hgrouping.mem op hadmits)
      have hlow := (hgrouping.equality hequality).left_le
      rw [right_infix_of, binding_power_equality hop] at hpower
      rw [binding_power_equality hop] at hwidth
      omega
    | _ => rfl
  · rw [leading_inf hl, leading_inf hl]

/-- The parentheses of a comparison in front of an equality `IS` of a lower rank can go. -/
theorem replaces_comparison (hgrouping : Grouping features ranks) {l r l' r' : Expr}
    {op op' : BinaryOperator} (h : Readable features (.BinaryOp l op r)) (hbinary : Binary l)
    (hfits : Fits features (written features.binding_powers (.BinaryOp l op r)))
    (hequality : is_equality op = true) (hl : l = .BinaryOp l' op' r')
    (hrank : features.binding_power op' = features.binding_powers.comparison)
    (hne : features.binding_powers.predicate ≠ features.binding_powers.comparison) :
    ∃ d, Cst.DropsPair (written features.binding_powers (.BinaryOp l op r)) d ∧
      Replaces features (written features.binding_powers (.BinaryOp l op r)) d := by
  have hranked := hgrouping.equality (general_equality h.1 hequality)
  have hsame := @binding_power_equality features op hequality
  obtain ⟨hlt, -, hnonassoc⟩ := hranked.eq_or_lt.resolve_left hne
  have hneeds : binary_child_needs_parens features.binding_powers op l .Left = true := by
    have hparent : features.binding_powers.binary op = features.binding_powers.comparison := hsame
    have hchild : features.binding_powers.binary op' = features.binding_powers.comparison := hrank
    rw [hl, binary_child_needs_parens, BindingPowerTable.needs_parens, hparent, hchild]
    simp [needs_parens_between, hnonassoc]
  have hleft : (reader features).left ( infix_of op) = features.binding_powers.predicate.left := by
    rw [left_infix_of, hequality, if_pos rfl]
  have hle : features.binding_powers.predicate.left ≤ (reader features).left ( infix_of op') := by
    rw [left_infix_of]
    split
    · exact Nat.le_refl _
    · rw [hrank]
      exact hranked.left_le
  have hwidth := hgrouping.width _ (hgrouping.mem op h.1)
  rw [hsame] at hwidth
  rw [written, hneeds] at hfits ⊢
  obtain ⟨hfitsL, -, -, hbehind⟩ := hfits
  have hleftSpine : ∀ p, p ≤ (reader features).left ( infix_of op) →
      (reader features).LeftSpine p (written features.binding_powers l) := by
    intro p hp
    refine left_spine_written hgrouping h.2.2.1 ?_
    rintro l₁ op₁ r₁ heq
    obtain ⟨-, rfl, -⟩ := Expr.BinaryOp.inj (hl.symm.trans heq)
    omega
  have hrightSpine : (reader features).RightSpine ((reader features).left ( infix_of op))
      (written features.binding_powers l) := by
    refine (right_spine_written hgrouping h.2.2.1 ?_).mpr ?_
    · rintro l₁ op₁ r₁ heq
      obtain ⟨-, rfl, -⟩ := Expr.BinaryOp.inj (hl.symm.trans heq)
      rw [right_infix_of, hrank, hleft]
      omega
    · rw [open_prefixes_binary _ hbinary]
      exact fun q hq => (by cases hq)
  have hfree : (reader features).blocked (written features.binding_powers l)
      (.inl ( infix_of op)) = false := by
    obtain ⟨-, herase⟩ := canonical_written features.binding_powers h.2.2.1
    rw [blocked_infix_of, herase, rank_infix_of, hequality, if_pos rfl, hl]
    have hapart : ¬ features.binding_powers.comparison.left =
        features.binding_powers.predicate.left := by omega
    simp [reject_nonassoc_chain, lhs_chains_nonassoc, hrank, hapart]
  refine ⟨_, .left .drop, ⟨hfitsL, hrightSpine, hfree, hbehind⟩,
    fun p hp => ⟨hp.1, hleftSpine p hp.1⟩, fun _ hp => hp, Or.inr fun p hp => ?_⟩
  rw [← hleft]
  exact hp.1

/-- A tree that is not sparing has an equality `IS` that is read below the comparisons. -/
theorem equality_of_not_sparing {e : Expr} (h : Readable features e)
    (hspare : ¬ Sparing features e) : features.operator_syntax.is_general_equality = true ∧
      features.binding_powers.predicate ≠ features.binding_powers.comparison := by
  induction e with
  | BinaryOp l op r ihl ihr =>
    by_contra hnot
    refine hspare ⟨fun hequality l' op' r' _ _ => ?_, ?_, ?_⟩
    · by_contra hne
      exact hnot ⟨general_equality h.1 hequality, hne⟩
    · by_contra hl
      exact hnot (ihl h.2.2.1 hl)
    · by_contra hr
      exact hnot (ihr h.2.2.2 hr)
  | _ => exact absurd trivial hspare

theorem isGroup_of_drops {bp : BindingPowerTable} {e : Expr} (hbinary : Binary e) {d : Written}
    (hdrops : Cst.DropsPair (written bp e) d) : d.isGroup = (written bp e).isGroup := by
  cases e with
  | Column => cases hdrops
  | Literal => cases hdrops
  | BinaryOp l op r => cases hdrops <;> rfl
  | _ => exact absurd hbinary id

/-- A tree that is not sparing is read back without one of its pairs. -/
theorem exists_spare (hgrouping : Grouping features ranks) ( hpostfix : PostfixEquality features)
    {e : Expr} (h : Readable features e) (hbinary : Binary e)
    (hfits : Fits features (written features.binding_powers e)) (hspare : ¬ Sparing features e) :
    ∃ d, Cst.DropsPair (written features.binding_powers e) d ∧
      Replaces features (written features.binding_powers e) d := by
  induction e with
  | BinaryOp l op r ihl ihr =>
    obtain ⟨hcanonicalL, heraseL⟩ := canonical_written features.binding_powers h.2.2.1
    obtain ⟨hcanonicalR, -⟩ := canonical_written features.binding_powers h.2.2.2
    have hgroupedL : Canonical features (.groupIf
        (binary_child_needs_parens features.binding_powers op l .Left)
        (written features.binding_powers l)) := (canonical_groupIf _ _).mpr hcanonicalL
    by_cases hl : Sparing features l
    · by_cases hr : Sparing features r
      · have hnode : ¬ (is_equality op = true → ∀ l' op' r', l = .BinaryOp l' op' r' →
            features.binding_power op' = features.binding_powers.comparison →
            features.binding_powers.predicate = features.binding_powers.comparison) :=
          fun hnode => hspare ⟨hnode, hl, hr⟩
        simp only [Classical.not_imp, not_forall] at hnode
        obtain ⟨hequality, l', op', r', heq, hrank, hne⟩ := hnode
        exact replaces_comparison hgrouping h hbinary.1 hfits hequality heq hrank hne
      · obtain ⟨hequality, hne⟩ := equality_of_not_sparing h.2.2.2 hr
        have hfitsR := (fits_groupIf _ _).mp hfits.2.2.2.2.2
        obtain ⟨d, hdrops, hreplaces⟩ := ihr h.2.2.2 hbinary.2 hfitsR hr
        obtain ⟨hd, -⟩ := canonical_of_drops hdrops hcanonicalR
        exact ⟨_, .right (drops_groupIf_of_drops hdrops _),
          replaces_right hgrouping hpostfix hequality hne h.1 hfits (hreplaces.groupIf _) hgroupedL
            ((canonical_groupIf _ _).mpr hd)⟩
    · obtain ⟨d, hdrops, hreplaces⟩ := ihl h.2.2.1 hbinary.1 ((fits_groupIf _ _).mp hfits.1) hl
      obtain ⟨hd, herase⟩ := canonical_of_drops hdrops hcanonicalL
      refine ⟨_, .left (drops_groupIf_of_drops hdrops _),
        replaces_left hfits (hreplaces.groupIf _) hgroupedL ((canonical_groupIf _ _).mpr hd) ?_ ?_⟩
      · rw [erase_groupIf, erase_groupIf, herase]
      · cases binary_child_needs_parens features.binding_powers op l .Left
        · exact isGroup_of_drops hbinary.1 hdrops
        · rfl
  | Column => exact absurd trivial hspare
  | Literal => exact absurd trivial hspare
  | _ => exact absurd hbinary id

/-! ## Exact parentheses -/

theorem round_trips_minimal_iff (hgrouping : Grouping features ranks)
    (hseparated : Separated features) (htests : TestsApart features)
    ( hpostfix : PostfixEquality features) {e : Expr} (h : Readable features e)
    (hbinary : Binary e) :
    RoundTrips features e ∧ Minimal features e ↔ Placed features e ∧ Sparing features e := by
  have hdropped := fun d => @parses_dropped_iff _ _ hgrouping hseparated e h hbinary d
  rw [round_trips_iff hgrouping hseparated htests h]
  refine and_congr_right fun hplaced => ⟨fun hminimal => ?_, fun hsparing d hdrops hparses => ?_⟩
  · by_contra hspare
    have hfits := ((fits_written_iff hgrouping htests h).mpr hplaced).1
    obtain ⟨d, hdrops, hreplaces⟩ := exists_spare hgrouping hpostfix h hbinary hfits hspare
    exact hminimal d hdrops ((hdropped d hdrops).mpr hreplaces.fits)
  · exact not_fits_of_drops hgrouping h hbinary hsparing hdrops ((hdropped d hdrops).mp hparses)

theorem builtin_postfix_equality (dialect : BuiltinDialect) : PostfixEquality dialect.features := by
  intro hequality hne
  cases dialect
  case Lenient => rfl
  case Sqlite => exact absurd rfl hne
  all_goals cases hequality

/-- In every dialect, the parentheses of the canonical text of a binary tree that the parser has
    built are exact just if its nodes are well placed and no equality `IS` of a lower rank follows
    a comparison. -/
theorem canonical_parens_exact_iff (dialect : BuiltinDialect) {e : Expr}
    (hproduces : Produces dialect.features e) (hbinary : Binary e) :
    RoundTrips dialect.features e ∧ Minimal dialect.features e ↔
      Placed dialect.features e ∧ Sparing dialect.features e :=
  round_trips_minimal_iff (builtin_grouping dialect) (builtin_separated dialect)
    (builtin_tests_apart dialect) (builtin_postfix_equality dialect)
    (readable_of_produces (builtin_regular dialect) hproduces (operators_of_binary hbinary)) hbinary

/-- `(a + b) * c` -/
def grouped_sum : Expr :=
  .BinaryOp (.BinaryOp (.Column (.Word ['a'])) .Plus (.Column (.Word ['b']))) .Multiply
    (.Column (.Word ['c']))

theorem produces_grouped_sum : Produces FeatureSet.ANSI grouped_sum := by
  have hword : ∀ {c : Char}, is_identifier_start c = true →
      Spelled FeatureSet.ANSI [c] (.word [c]) := spelled_letter (builtin_separated .Ansi).toDelimited
  -- ( a + b ) * c
  apply produces_of_spelled (builtin_separated .Ansi) [(['('], .lparen), (['a'], .word ['a']),
    (['+'], .operator .Plus), (['b'], .word ['b']), ([')'], .rparen), (['*'], .operator .Star),
    (['c'], .word ['c'])]
  · simp only [List.forall_mem_cons]
    exact ⟨⟨'(', [], rfl, rfl, rfl⟩, hword rfl, ⟨'+', [], rfl, rfl, rfl⟩, hword rfl,
      ⟨')', [], rfl, rfl, rfl⟩, ⟨'*', [], rfl, rfl, rfl⟩, hword rfl, List.forall_mem_nil _⟩
  · simp
  · show parse_expr_bp FeatureSet.ANSI 9 0 _ = some (grouped_sum, [])
    decide +kernel

theorem canonical_parens_exact_grouped_sum :
    RoundTrips FeatureSet.ANSI grouped_sum ∧ Minimal FeatureSet.ANSI grouped_sum := by
  have hword : ∀ (op : BinaryOperator) (c : Char), (op = .Plus ∨ op = .Multiply) →
      ∀ t, some (Token.word [c]) = some t → takes FeatureSet.ANSI ( infix_of op) t = false := by
    rintro op c (rfl | rfl) t ht
    all_goals
      rw [← Option.some.inj ht]
      rfl
  refine (canonical_parens_exact_iff .Ansi produces_grouped_sum ⟨⟨trivial, trivial⟩, trivial⟩).mpr
    ⟨⟨(fun hfree => by cases hfree), hword .Multiply 'c' (Or.inr rfl), (fun htest => by cases htest),
      ⟨(fun _ q hq => by cases hq), hword .Plus 'b' (Or.inl rfl), (fun htest => by cases htest),
        trivial, trivial⟩, trivial⟩, ?_⟩
  exact ⟨(fun hequality => by cases hequality), ⟨(fun hequality => by cases hequality), trivial,
    trivial⟩, trivial⟩

/-- `a IS (NULL)`, an equality -/
def is_grouped_null : Expr :=
  .BinaryOp (.Column (.Word ['a'])) (.IsNotDistinctFrom .Is) (.Literal .Null)

theorem produces_is_grouped_null : Produces FeatureSet.SQLITE is_grouped_null := by
  have hdelimited := (builtin_separated .Sqlite).toDelimited
  -- a IS ( NULL )
  apply produces_of_spelled (builtin_separated .Sqlite) [(['a'], .word ['a']),
    (Keyword.capitals .Is, .keyword .Is), (['('], .lparen),
    (Keyword.capitals .Null, .keyword .Null), ([')'], .rparen)]
  · simp only [List.forall_mem_cons]
    exact ⟨spelled_letter hdelimited rfl, spelled_capitals hdelimited .Is,
      ⟨'(', [], rfl, rfl, rfl⟩, spelled_capitals hdelimited .Null, ⟨')', [], rfl, rfl, rfl⟩,
      List.forall_mem_nil _⟩
  · simp
  · show parse_expr_bp FeatureSet.SQLITE 9 0 _ = some (is_grouped_null, [])
    decide +kernel

/-- An equality with the grouped literal `NULL` is read back as a test for `NULL`. -/
theorem canonical_equality_reads_test :
    Produces FeatureSet.SQLITE is_grouped_null ∧ Binary is_grouped_null ∧
      expr FeatureSet.SQLITE.binding_powers is_grouped_null = "a IS NULL".toList ∧
      ¬ (RoundTrips FeatureSet.SQLITE is_grouped_null ∧
        Minimal FeatureSet.SQLITE is_grouped_null) := by
  refine ⟨produces_is_grouped_null, ⟨trivial, trivial⟩, by decide, ?_⟩
  rintro ⟨htrips, -⟩
  have hreadable := readable_of_produces (builtin_regular .Sqlite) produces_is_grouped_null
    ⟨trivial, trivial⟩
  have hplaced := (round_trips_iff (builtin_grouping .Sqlite) (builtin_separated .Sqlite)
    (builtin_tests_apart .Sqlite) hreadable).mp htrips
  exact absurd (hplaced.2.1 (.keyword .Null) rfl) (by decide)

end squonk.render
