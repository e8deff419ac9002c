import Mathlib.Data.List.Basic

/-!
# Concrete operator expressions

An expression as it is written: operands, grouping parentheses, and the prefix,
infix, mixfix and postfix operators applied to them. Everything here is about an
arbitrary token alphabet and arbitrary operators.
-/

namespace climbing

/-- An expression with its grouping parentheses kept. A mixfix node is an infix operator
    that reads a second right operand after a separator, as `BETWEEN … AND …` does. -/
inductive Cst (α π ι ω : Type)
  | atom (a : α)
  | group (c : Cst α π ι ω)
  | pre (p : π) (c : Cst α π ι ω)
  | inf (l : Cst α π ι ω) (o : ι) (r : Cst α π ι ω)
  | mix (l : Cst α π ι ω) (o : ι) (m r : Cst α π ι ω)
  | post (l : Cst α π ι ω) (q : ω)
  deriving DecidableEq

/-- The tokens each piece of an expression is written with. -/
structure Lexicon (τ α π ι ω : Type) where
  opening : τ
  closing : τ
  atomToks : α → List τ
  preToks : π → List τ
  infToks : ι → List τ
  sepToks : ι → List τ
  postToks : ω → List τ

variable {τ α π ι ω : Type}

namespace Cst

/-- The tokens of an expression, from left to right. -/
def tokens (L : Lexicon τ α π ι ω) : Cst α π ι ω → List τ
  | atom a => L.atomToks a
  | group c => L.opening :: (c.tokens L ++ [L.closing])
  | pre p c => L.preToks p ++ c.tokens L
  | inf l o r => l.tokens L ++ (L.infToks o ++ r.tokens L)
  | mix l o m r => l.tokens L ++ (L.infToks o ++ (m.tokens L ++ (L.sepToks o ++ r.tokens L)))
  | post l q => l.tokens L ++ L.postToks q

/-- The expression with every grouping parenthesis dropped. -/
def ungroup : Cst α π ι ω → Cst α π ι ω
  | atom a => atom a
  | group c => c.ungroup
  | pre p c => pre p c.ungroup
  | inf l o r => inf l.ungroup o r.ungroup
  | mix l o m r => mix l.ungroup o m.ungroup r.ungroup
  | post l q => post l.ungroup q

/-- Whether the expression is wrapped in grouping parentheses. -/
def isGroup : Cst α π ι ω → Bool
  | group _ => true
  | _ => false

/-- The operand with grouping parentheses around it when `needed`. -/
def groupIf (needed : Bool) (c : Cst α π ι ω) : Cst α π ι ω :=
  bif needed then group c else c

@[simp] theorem groupIf_true (c : Cst α π ι ω) : groupIf true c = group c := rfl

@[simp] theorem groupIf_false (c : Cst α π ι ω) : groupIf false c = c := rfl

@[simp] theorem ungroup_groupIf (needed : Bool) (c : Cst α π ι ω) :
    (groupIf needed c).ungroup = c.ungroup := by
  cases needed <;> rfl

/-- How deeply operand reads nest in the expression. -/
def height : Cst α π ι ω → Nat
  | atom _ => 1
  | group c => c.height + 1
  | pre _ c => c.height + 1
  | inf l _ r => max l.height (r.height + 1)
  | mix l _ m r => max l.height (max (m.height + 1) (r.height + 1))
  | post l _ => l.height

theorem height_pos (c : Cst α π ι ω) : 0 < c.height := by
  induction c with
  | atom => simp [height]
  | group => simp [height]
  | pre => simp [height]
  | inf l o r ihl _ => exact Nat.lt_of_lt_of_le ihl (Nat.le_max_left _ _)
  | mix l o m r ihl _ _ => exact Nat.lt_of_lt_of_le ihl (Nat.le_max_left _ _)
  | post l q ih => simpa [height] using ih

/-- The second expression is the first without one of its pairs of parentheses. -/
inductive DropsPair : Cst α π ι ω → Cst α π ι ω → Prop
  | drop {c} : DropsPair (group c) c
  | group {c d} (h : DropsPair c d) : DropsPair (group c) (group d)
  | pre {p c d} (h : DropsPair c d) : DropsPair (pre p c) (pre p d)
  | left {l l' o r} (h : DropsPair l l') : DropsPair (inf l o r) (inf l' o r)
  | right {l o r r'} (h : DropsPair r r') : DropsPair (inf l o r) (inf l o r')
  | mix_left {l l' o m r} (h : DropsPair l l') : DropsPair (mix l o m r) (mix l' o m r)
  | mix_middle {l o m m' r} (h : DropsPair m m') : DropsPair (mix l o m r) (mix l o m' r)
  | mix_right {l o m r r'} (h : DropsPair r r') : DropsPair (mix l o m r) (mix l o m r')
  | post {l l' q} (h : DropsPair l l') : DropsPair (post l q) (post l' q)

/-- Wrap an expression in `k` pairs of grouping parentheses. -/
def wrap : Nat → Cst α π ι ω → Cst α π ι ω
  | 0, c => c
  | k + 1, c => group (wrap k c)

@[simp] theorem ungroup_wrap (k : Nat) (c : Cst α π ι ω) : (wrap k c).ungroup = c.ungroup := by
  induction k with
  | zero => rfl
  | succ k ih => simpa [wrap, ungroup] using ih

/-- Every expression is some number of parentheses around one that is not grouped. -/
theorem exists_wrap (c : Cst α π ι ω) : ∃ k x, c = wrap k x ∧ x.isGroup = false := by
  induction c with
  | group c ih =>
    obtain ⟨k, x, hwrap, hcore⟩ := ih
    exact ⟨k + 1, x, by rw [hwrap, wrap], hcore⟩
  | atom a => exact ⟨0, atom a, rfl, rfl⟩
  | pre p c => exact ⟨0, pre p c, rfl, rfl⟩
  | inf l o r => exact ⟨0, inf l o r, rfl, rfl⟩
  | mix l o m r => exact ⟨0, mix l o m r, rfl, rfl⟩
  | post l q => exact ⟨0, post l q, rfl, rfl⟩

theorem tokens_wrap (L : Lexicon τ α π ι ω) (k : Nat) (c : Cst α π ι ω) :
    (wrap k c).tokens L =
      List.replicate k L.opening ++ (c.tokens L ++ List.replicate k L.closing) := by
  induction k with
  | zero => simp [wrap]
  | succ k ih =>
    rw [wrap, tokens, ih, List.replicate_succ, List.replicate_succ', List.cons_append]
    simp only [List.append_assoc]

end Cst

end climbing
