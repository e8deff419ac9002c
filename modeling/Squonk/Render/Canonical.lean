import Squonk.Render.Readable

/-!
# Canonical expressions

Written expressions whose operators are the ones the renderer writes, in a dialect that has all
of them. The parentheses are left open.
-/

open squonk.ast squonk.tokenizer squonk.dialect squonk.precedence squonk.parser.expr climbing

namespace squonk.render

variable {features : FeatureSet}

/-- An expression of atoms and operators of the dialect, as the renderer writes them. -/
def Canonical (features : FeatureSet) : Written → Prop
  | .atom a => AdmitsAtom features a
  | .group c => Canonical features c
  | .pre p c =>
    (∃ op, p = .unary op ∧ op ≠ .Prior ∧
      (op = .BitwiseNot → features.operator_syntax.bitwise_operators = true)) ∧
      Canonical features c
  | .inf l o r =>
    (∃ op, o = infix_of op ∧ Admits features op ∧
      (op = .JsonGet → features.operator_syntax.lambda_expressions = true →
        ∀ name, erase features l ≠ .Column name)) ∧
      Canonical features l ∧ Canonical features r
  | _ => False

@[simp] theorem erase_groupIf (needed : Bool) (c : Written) :
    erase features (.groupIf needed c) = erase features c := by
  cases needed <;> rfl

@[simp] theorem canonical_groupIf (needed : Bool) (c : Written) :
    Canonical features (.groupIf needed c) ↔ Canonical features c := by
  cases needed <;> rfl

/-- What an operator of the dialect builds, unless it is the arrow of a lambda. -/
theorem build_infix_of {op : BinaryOperator} (h : Admits features op) {l : Expr}
    (hlambda : op = .JsonGet → features.operator_syntax.lambda_expressions = true →
      ∀ name, l ≠ .Column name) (grouped : Bool) (r : Expr) :
    ( infix_of op).build features l grouped r = .BinaryOp l op r := by
  have hplain : infix_expr features l grouped op r = .BinaryOp l op r := by
    unfold infix_expr
    split
    · rename_i hjson
      rw [Bool.and_eq_true, beq_iff_eq] at hjson
      have hcolumn := hlambda hjson.1 hjson.2
      cases hparam : lambda_param l grouped with
      | none => rfl
      | some read =>
        cases l with
        | Column name => exact absurd rfl (hcolumn name)
        | _ => cases hparam
    · rfl
  cases op
  all_goals first
    | exact hplain
    | (rename_i spelling; cases spelling <;> exact hplain)

theorem erase_inf_of_canonical {l r : Written} {o : Infix}
    (h : Canonical features (.inf l o r)) : ∃ op, o = infix_of op ∧ Admits features op ∧
      erase features (.inf l o r) = .BinaryOp (erase features l) op (erase features r) := by
  obtain ⟨⟨op, rfl, hadmits, hlambda⟩, -⟩ := h
  exact ⟨op, rfl, hadmits, build_infix_of hadmits hlambda l.isGroup (erase features r)⟩

/-- The renderer writes a tree that the parser has built canonically, and as that tree. -/
theorem canonical_written (bp : BindingPowerTable) {e : Expr} (h : Readable features e) :
    Canonical features (written bp e) ∧ erase features (written bp e) = e := by
  induction e with
  | Column name => exact ⟨h, rfl⟩
  | Literal value => exact ⟨h, rfl⟩
  | BinaryOp l op r ihl ihr =>
    obtain ⟨hadmits, hlambda, hl, hr⟩ := h
    obtain ⟨hcanonicalL, heraseL⟩ := ihl hl
    obtain ⟨hcanonicalR, heraseR⟩ := ihr hr
    have hcanonical : Canonical features (written bp (.BinaryOp l op r)) := by
      refine ⟨⟨op, rfl, hadmits, ?_⟩, (canonical_groupIf _ _).mpr hcanonicalL,
        (canonical_groupIf _ _).mpr hcanonicalR⟩
      rw [erase_groupIf, heraseL]
      exact hlambda
    refine ⟨hcanonical, ?_⟩
    rw [written, erase, erase_groupIf, erase_groupIf, heraseL, heraseR]
    exact build_infix_of hadmits hlambda _ r
  | UnaryOp op e ih =>
    obtain ⟨hprior, htilde, he⟩ := h
    obtain ⟨hcanonical, herase⟩ := ih he
    refine ⟨⟨⟨op, rfl, hprior, htilde⟩, (canonical_groupIf _ _).mpr hcanonical⟩, ?_⟩
    rw [written, erase, erase_groupIf, herase]
    rfl
  | _ => exact absurd h id

theorem operators_of_readable {e : Expr} (h : Readable features e) : Operators e := by
  induction e with
  | Column => exact trivial
  | Literal => exact trivial
  | BinaryOp l op r ihl ihr => exact ⟨ihl h.2.2.1, ihr h.2.2.2⟩
  | UnaryOp op e ih => exact ih h.2.2
  | _ => exact absurd h id

theorem operators_of_canonical {c : Written} (h : Canonical features c) :
    Operators (erase features c) := by
  induction c with
  | atom a => cases a <;> exact trivial
  | group c ih => exact ih h
  | pre p c ih =>
    obtain ⟨⟨op, rfl, -⟩, hc⟩ := h
    exact ih hc
  | inf l o r ihl ihr =>
    obtain ⟨op, -, -, herase⟩ := erase_inf_of_canonical h
    rw [herase]
    exact ⟨ihl h.2.1, ihr h.2.2⟩
  | mix => exact absurd h id
  | post => exact absurd h id

/-- No atom is the word that a negation starts with. -/
theorem atom_ne_not {a : Atom} (h : AdmitsAtom features a) : a.token ≠ .keyword .Not := by
  obtain ⟨⟨ts, rest, hhead⟩, -⟩ := h
  intro hnot
  rcases head_inv hhead with ⟨hfront, -⟩ | ⟨p, hfront, -⟩ | ⟨a', hfront, hts⟩
  · cases hfront
  · cases hfront
  · rw [← Head.atom.inj hfront, hnot] at hts
    rw [hts] at hhead
    cases hhead

theorem atom_ne_operator (a : Atom) (op : Operator) : a.token ≠ .operator op := by
  rcases a with (_ | _ | _) | (_ | (_ | _) | _ | _) <;> exact Token.noConfusion

/-- An expression ends with an atom, behind which parentheses close. -/
theorem tokens_last {c : Written} (h : Canonical features c) :
    ∃ front a k, AdmitsAtom features a ∧
      c.tokens lexicon = front ++ a.token :: List.replicate k .rparen := by
  induction c with
  | atom a => exact ⟨[], a, 0, h, rfl⟩
  | group c ih =>
    obtain ⟨front, a, k, ha, htokens⟩ := ih h
    refine ⟨.lparen :: front, a, k + 1, ha, ?_⟩
    rw [Cst.tokens, htokens, List.replicate_succ', List.append_assoc]
    rfl
  | pre p c ih =>
    obtain ⟨front, a, k, ha, htokens⟩ := ih h.2
    exact ⟨lexicon.preToks p ++ front, a, k, ha, by rw [Cst.tokens, htokens, List.append_assoc]⟩
  | inf l o r _ ihr =>
    obtain ⟨front, a, k, ha, htokens⟩ := ihr h.2.2
    refine ⟨l.tokens lexicon ++ (lexicon.infToks o ++ front), a, k, ha, ?_⟩
    rw [Cst.tokens, htokens]
    simp only [List.append_assoc]
  | mix => exact absurd h id
  | post => exact absurd h id

end squonk.render
