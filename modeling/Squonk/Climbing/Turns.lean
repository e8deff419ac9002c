import Squonk.Climbing.Runs

/-!
# Turns of a climb

A climb nests in two ways: it reads an operand inside of another read, which its budget counts,
and it folds an operator onto what it has read, which nothing counts.
-/

namespace climbing

variable {τ α π ι ω : Type}

/-- The greatest number of operators that were folded, one onto the other, around one operand. -/
def Cst.turns : Cst α π ι ω → Nat
  | .atom _ => 0
  | .group c => c.turns
  | .pre _ c => c.turns
  | .inf l _ r => max (l.turns + 1) r.turns
  | .mix l _ m r => max (l.turns + 1) (max m.turns r.turns)
  | .post l _ => l.turns + 1

namespace Reader

variable [DecidableEq τ] {R : Reader τ α π ι ω}

/-- What holds of the operands a budget reads, and is kept by every fold onto them, holds of
whatever a climb reads. -/
theorem climb_induct (hR : R.Faithful) {P : Nat → Cst α π ι ω → Prop}
    (hatom : ∀ n a, P (n + 1) (.atom a))
    (hgroup : ∀ n c, P n c → P (n + 1) (.group c))
    (hpre : ∀ n p c, P n c → P (n + 1) (.pre p c))
    (hinf : ∀ n l o r, P (n + 1) l → P n r → P (n + 1) (.inf l o r))
    (hmix : ∀ n l o m r ts ts', R.cont o ts = some (some ts') → P (n + 1) l → P n m → P n r →
      P (n + 1) (.mix l o m r))
    (hpost : ∀ n l q, P (n + 1) l → P (n + 1) (.post l q))
    {n min : Nat} {ts rest : List τ} {c : Cst α π ι ω}
    (h : R.climb n min ts = some (c, rest)) : P n c := by
  induction n generalizing min ts c rest with
  | zero => cases h
  | succ n ih =>
    have hreached := ((climb_eq_some_iff hR).mp h).1
    clear h
    induction hreached with
    | operand h =>
      rcases operand_cases h with ⟨a, -, rfl⟩ | ⟨p, ts', d, -, hread, rfl⟩ |
        ⟨ts', d, -, hread, rfl⟩
      · exact hatom n a
      · exact hpre n p d (ih hread)
      · exact hgroup n d (ih hread)
    | step _ _ _ _ hstep ihlhs =>
      rcases step_cases hstep with ⟨q, -, -, rfl, -⟩ | ⟨o, r, ts', -, -, hright, ⟨-, rfl, -⟩ |
        ⟨ts'', r', hcont, hlast, rfl⟩⟩
      · exact hpost n _ q ihlhs
      · exact hinf n _ o r ihlhs (ih hright)
      · exact hmix n _ o r r' ts' ts'' hcont ihlhs (ih hright) (ih hlast)

/-- What a climb reads fits into its budget. -/
theorem climb_height (hR : R.Faithful) {n min : Nat} {ts rest : List τ} {c : Cst α π ι ω}
    (h : R.climb n min ts = some (c, rest)) : c.height ≤ n := by
  refine climb_induct hR (P := fun n c => c.height ≤ n) ?_ ?_ ?_ ?_ ?_ ?_ h
  · intro n a
    exact Nat.succ_le_succ (Nat.zero_le n)
  · intro n c hc
    exact Nat.succ_le_succ hc
  · intro n p c hc
    exact Nat.succ_le_succ hc
  · intro n l o r hl hr
    rw [Cst.height]
    omega
  · intro n l o m r ts ts' _ hl hm hr
    rw [Cst.height]
    omega
  · intro n l q hl
    exact hl

end Reader

end climbing
