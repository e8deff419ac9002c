import Squonk.Climbing.Cst

/-!
# What holds wherever an operator stands behind an operand

A relation between left operands and the operators behind them, asked of every operator of an
expression.
-/

namespace climbing

variable {α π ι ω : Type}

namespace Cst

/-- Every operator behind a left operand is related to it by `P`. -/
def Folds (P : Cst α π ι ω → ι ⊕ ω → Prop) : Cst α π ι ω → Prop
  | atom _ => True
  | group c => c.Folds P
  | pre _ c => c.Folds P
  | inf l o r => P l (.inl o) ∧ l.Folds P ∧ r.Folds P
  | mix l o m r => P l (.inl o) ∧ l.Folds P ∧ m.Folds P ∧ r.Folds P
  | post l q => P l (.inr q) ∧ l.Folds P

variable {P Q R : Cst α π ι ω → ι ⊕ ω → Prop}

/-- Where two relations hold throughout, so does what follows from them. -/
theorem Folds.imp₂ (himp : ∀ l k, P l k → Q l k → R l k) {c : Cst α π ι ω} (hp : c.Folds P)
    (hq : c.Folds Q) : c.Folds R := by
  induction c with
  | atom a => trivial
  | group c ih => exact ih hp hq
  | pre p c ih => exact ih hp hq
  | inf l o r ihl ihr =>
    obtain ⟨hp, hpl, hpr⟩ := hp
    obtain ⟨hq, hql, hqr⟩ := hq
    exact ⟨himp _ _ hp hq, ihl hpl hql, ihr hpr hqr⟩
  | mix l o m r ihl ihm ihr =>
    obtain ⟨hp, hpl, hpm, hpr⟩ := hp
    obtain ⟨hq, hql, hqm, hqr⟩ := hq
    exact ⟨himp _ _ hp hq, ihl hpl hql, ihm hpm hqm, ihr hpr hqr⟩
  | post l q ih =>
    obtain ⟨hp, hpl⟩ := hp
    obtain ⟨hq, hql⟩ := hq
    exact ⟨himp _ _ hp hq, ih hpl hql⟩

theorem Folds.imp (himp : ∀ l k, P l k → Q l k) {c : Cst α π ι ω} (h : c.Folds P) :
    c.Folds Q :=
  Folds.imp₂ (fun l k hp _ => himp l k hp) h h

/-- The operator on top of an expression without parentheses around it. -/
def top : Cst α π ι ω → Option (ι ⊕ ω)
  | inf _ o _ | mix _ o _ _ => some (.inl o)
  | post _ q => some (.inr q)
  | _ => none

theorem isGroup_of_top {c : Cst α π ι ω} {k : ι ⊕ ω} (h : c.top = some k) :
    c.isGroup = false := by
  cases c with
  | group => cases h
  | _ => rfl

end Cst

end climbing
