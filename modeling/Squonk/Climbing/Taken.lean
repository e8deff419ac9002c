import Squonk.Climbing.Runs

/-!
# What a climb takes its tokens for

Every operand and operator of an expression that a climb has read is one that the reader
recognized at some place of the input.
-/

namespace climbing.Reader

variable {τ α π ι ω : Type} [DecidableEq τ] (R : Reader τ α π ι ω)

/-- Behind the operand `l`, the reader takes `o` for an infix operator somewhere. -/
def TakesInf (l : Cst α π ι ω) (o : ι) : Prop :=
  (∃ ts rest, R.peek ts = some (.inf o, rest) ∨ ∃ q, R.peek ts = some (.either (some o) q, rest)) ∧
    R.blocked l (.inl o) = false

/-- Every operand and operator of the expression is one that the reader recognized. -/
def Taken : Cst α π ι ω → Prop
  | .atom a => ∃ ts rest, R.head ts = some (.atom a, rest)
  | .group c => Taken c
  | .pre p c => (∃ ts rest, R.head ts = some (.pre p, rest)) ∧ Taken c
  | .inf l o r => R.TakesInf l o ∧ Taken l ∧ Taken r
  | .mix l o m r =>
    R.TakesInf l o ∧ (∃ ts rest, R.cont o ts = some (some rest)) ∧ Taken l ∧ Taken m ∧ Taken r
  | .post l q =>
    (∃ ts rest, R.peek ts = some (.post q, rest) ∨ ∃ o, R.peek ts = some (.either o q, rest)) ∧
      Taken l

variable {R}

theorem takesInf_of_settle {n : Nat} {l : Cst α π ι ω} {o : ι} {f : Fold ι ω} {ts rest : List τ}
    (hpeek : R.peek ts = some (f, rest))
    (hsettle : R.settle (R.climb n) f rest = some (.inr (.inl o)))
    (hfree : R.blocked l (.inl o) = false) : R.TakesInf l o := by
  rcases settle_inl hsettle with rfl | ⟨⟨q, rfl⟩, -⟩
  · exact ⟨⟨ts, rest, Or.inl hpeek⟩, hfree⟩
  · exact ⟨⟨ts, rest, Or.inr ⟨q, hpeek⟩⟩, hfree⟩

/-- What a climb reads, it has taken from the input. -/
theorem taken_of_climb (hR : R.Faithful) {n min : Nat} {ts rest : List τ} {c : Cst α π ι ω}
    (h : R.climb n min ts = some (c, rest)) : R.Taken c := by
  induction n generalizing min ts c rest with
  | zero => cases h
  | succ n ih =>
    have hreached := ((climb_eq_some_iff hR).mp h).1
    clear h
    induction hreached with
    | operand h =>
      rcases operand_cases h with ⟨a, hhead, rfl⟩ | ⟨p, ts', d, hhead, hread, rfl⟩ |
        ⟨ts', d, -, hread, rfl⟩
      · exact ⟨_, _, hhead⟩
      · exact ⟨⟨_, _, hhead⟩, ih hread⟩
      · exact (ih hread : R.Taken d)
    | step _ hpeek hsettle _ hstep ihlhs =>
      rcases step_cases hstep with ⟨q, rfl, -, rfl, -⟩ | ⟨o, r, ts', rfl, hfree, hright,
        ⟨-, rfl, -⟩ | ⟨ts'', r', hcont, hlast, rfl⟩⟩
      · refine ⟨?_, ihlhs⟩
        rcases settle_inr hsettle with rfl | ⟨⟨o, rfl⟩, -⟩
        · exact ⟨_, _, Or.inl hpeek⟩
        · exact ⟨_, _, Or.inr ⟨o, hpeek⟩⟩
      · exact ⟨takesInf_of_settle hpeek hsettle hfree, ihlhs, ih hright⟩
      · exact ⟨takesInf_of_settle hpeek hsettle hfree, ⟨_, _, hcont⟩, ihlhs, ih hright, ih hlast⟩

end climbing.Reader
