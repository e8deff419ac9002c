import Mathlib.Data.List.Basic
import Squonk.Climbing.Climb

/-!
# What a climb reads

A climb consumes exactly the tokens of the expression it returns, and it returns an
expression precisely when its loop passes through it and stops there.
-/

namespace climbing.Reader

variable {τ α π ι ω : Type} [DecidableEq τ] {R : Reader τ α π ι ω}

section Consumption

variable {climb : Nat → List τ → Option (Cst α π ι ω × List τ)}

private theorem operand_tokens (hR : R.Faithful)
    (hclimb : ∀ {min ts c rest}, climb min ts = some (c, rest) →
      ts = c.tokens R.toLexicon ++ rest)
    {ts rest : List τ} {c : Cst α π ι ω} (h : R.operand climb ts = some (c, rest)) :
    ts = c.tokens R.toLexicon ++ rest := by
  rcases operand_cases h with ⟨a, hhead, rfl⟩ | ⟨p, ts', d, hhead, hread, rfl⟩ |
    ⟨ts', d, hhead, hread, rfl⟩
  · exact hR.head_atom hhead
  · rw [hR.head_pre hhead, hclimb hread, Cst.tokens, List.append_assoc]
  · rw [hR.head_opening hhead, hclimb hread, Cst.tokens]
    simp

private theorem step_tokens (hR : R.Faithful)
    (hclimb : ∀ {min ts c rest}, climb min ts = some (c, rest) →
      ts = c.tokens R.toLexicon ++ rest)
    {lhs d : Cst α π ι ω} {f : Fold ι ω} {op : Nat ⊕ (ι ⊕ ω)} {ts ts' rest : List τ}
    (hpeek : R.peek ts = some (f, ts')) (hsettle : R.settle climb f ts' = some op)
    (h : R.step climb lhs op ts' = some (d, rest)) :
    lhs.tokens R.toLexicon ++ ts = d.tokens R.toLexicon ++ rest ∧ rest.length < ts.length := by
  rcases step_cases h with ⟨q, rfl, -, rfl, rfl⟩ | ⟨o, r, ts₂, rfl, -, hright, hmore⟩
  · have htoks : ts = R.postToks q ++ rest := by
      rcases settle_inr hsettle with rfl | ⟨⟨o, rfl⟩, -⟩
      · exact hR.peek_post hpeek
      · exact (hR.peek_either hpeek).1
    have hpos := List.length_pos_of_ne_nil (hR.postToks_ne_nil q)
    rw [htoks, Cst.tokens, List.append_assoc, List.length_append]
    exact ⟨rfl, by omega⟩
  · have htoks : ts = R.infToks o ++ ts' := by
      rcases settle_inl hsettle with rfl | ⟨⟨q, rfl⟩, -⟩
      · exact hR.peek_inf hpeek
      · exact (hR.peek_either hpeek).2 o rfl
    have hpos := List.length_pos_of_ne_nil (hR.infToks_ne_nil o)
    have hread := hclimb hright
    rcases hmore with ⟨hcont, rfl, rfl⟩ | ⟨ts₃, r', hcont, hlast, rfl⟩
    · rw [htoks, hread, Cst.tokens]
      simp only [List.append_assoc, List.length_append]
      exact ⟨trivial, by omega⟩
    · rw [htoks, hread, hR.cont hcont, hclimb hlast, Cst.tokens]
      simp only [List.append_assoc, List.length_append]
      exact ⟨trivial, by omega⟩

private theorem loop_tokens (hR : R.Faithful)
    (hclimb : ∀ {min ts c rest}, climb min ts = some (c, rest) →
      ts = c.tokens R.toLexicon ++ rest)
    {min k : Nat} {lhs d : Cst α π ι ω} {ts rest : List τ}
    (h : R.loop climb min k lhs ts = some (d, rest)) :
    lhs.tokens R.toLexicon ++ ts = d.tokens R.toLexicon ++ rest := by
  induction k generalizing lhs ts with
  | zero =>
    obtain ⟨rfl, rfl⟩ := Prod.mk.inj (Option.some.inj h)
    rfl
  | succ k ih =>
    rw [loop] at h
    split at h
    · obtain ⟨rfl, rfl⟩ := Prod.mk.inj (Option.some.inj h)
      rfl
    · rename_i f ts' hpeek
      split at h
      · obtain ⟨rfl, rfl⟩ := Prod.mk.inj (Option.some.inj h)
        rfl
      · rename_i op hsettle
        split at h
        · obtain ⟨rfl, rfl⟩ := Prod.mk.inj (Option.some.inj h)
          rfl
        · split at h
          · simp at h
          · rename_i lhs' rest' hstep
            rw [(step_tokens hR hclimb hpeek hsettle hstep).1, ih h]

end Consumption

/-- A climb consumes exactly the tokens of the expression it returns. -/
theorem climb_tokens (hR : R.Faithful) {n min : Nat} {ts rest : List τ} {c : Cst α π ι ω}
    (h : R.climb n min ts = some (c, rest)) : ts = c.tokens R.toLexicon ++ rest := by
  induction n generalizing min ts c rest with
  | zero => simp [climb] at h
  | succ n ih =>
    rw [climb] at h
    split at h
    · simp at h
    · rename_i lhs rest' hoperand
      rw [operand_tokens hR ih hoperand, loop_tokens hR ih h]

theorem operand_climb_tokens (hR : R.Faithful) {n : Nat} {ts rest : List τ} {c : Cst α π ι ω}
    (h : R.operand (R.climb n) ts = some (c, rest)) : ts = c.tokens R.toLexicon ++ rest :=
  operand_tokens hR (climb_tokens hR) h

/-- The loop only passes through reached states and ends in one where it stops. -/
private theorem loop_sound (hR : R.Faithful) {n min k : Nat} {ts₀ ts rest : List τ}
    {c d : Cst α π ι ω} (hreached : R.Reached n min ts₀ c ts) (hk : ts.length ≤ k)
    (h : R.loop (R.climb n) min k c ts = some (d, rest)) :
    R.Reached n min ts₀ d rest ∧ R.StopsAt n min rest := by
  induction k generalizing c ts with
  | zero =>
    obtain ⟨rfl, rfl⟩ := Prod.mk.inj (Option.some.inj h)
    have hnil : ts = [] := List.length_eq_zero_iff.mp (by omega)
    refine ⟨hreached, fun f rest op hpeek _ => ?_⟩
    rw [hnil, hR.peek_nil] at hpeek
    cases hpeek
  | succ k ih =>
    rw [loop] at h
    split at h
    · rename_i hnone
      obtain ⟨rfl, rfl⟩ := Prod.mk.inj (Option.some.inj h)
      exact ⟨hreached, fun f rest op hpeek _ => by rw [hnone] at hpeek; cases hpeek⟩
    · rename_i f ts' hpeek
      split at h
      · rename_i hnone
        obtain ⟨rfl, rfl⟩ := Prod.mk.inj (Option.some.inj h)
        refine ⟨hreached, fun f' rest' op hpeek' hsettle => ?_⟩
        rw [hpeek] at hpeek'
        obtain ⟨rfl, rfl⟩ := Prod.mk.inj (Option.some.inj hpeek')
        rw [hnone] at hsettle
        cases hsettle
      · rename_i op hsettle
        split at h
        · rename_i hmin
          obtain ⟨rfl, rfl⟩ := Prod.mk.inj (Option.some.inj h)
          refine ⟨hreached, fun f' rest' op' hpeek' hsettle' => ?_⟩
          rw [hpeek] at hpeek'
          obtain ⟨rfl, rfl⟩ := Prod.mk.inj (Option.some.inj hpeek')
          rw [hsettle] at hsettle'
          rw [← Option.some.inj hsettle']
          exact hmin
        · rename_i hmin
          split at h
          · simp at h
          · rename_i d' rest' hstep
            have hshorter := (step_tokens hR (climb_tokens hR) hpeek hsettle hstep).2
            exact ih (.step hreached hpeek hsettle (by omega) hstep) (by omega) h

/-- From a reached state the climb goes on as the loop does, with enough turns left. -/
private theorem loop_complete (hR : R.Faithful) {n min : Nat} {ts rest : List τ}
    {c : Cst α π ι ω} (h : R.Reached n min ts c rest) :
    ∃ k, rest.length ≤ k ∧ R.climb (n + 1) min ts = R.loop (R.climb n) min k c rest := by
  induction h with
  | operand h => exact ⟨_, Nat.le_refl _, by rw [climb, h]⟩
  | step _ hpeek hsettle hmin hstep ih =>
    obtain ⟨k, hk, hclimb⟩ := ih
    have hshorter := (step_tokens hR (climb_tokens hR) hpeek hsettle hstep).2
    obtain ⟨k, rfl⟩ : ∃ k', k = k' + 1 := ⟨k - 1, by omega⟩
    refine ⟨k, by omega, ?_⟩
    rw [hclimb, loop, hpeek]
    simp only [hsettle, if_neg (Nat.not_lt.mpr hmin), hstep]

/-- The climb returns an expression exactly when it reaches it and stops there. -/
theorem climb_eq_some_iff (hR : R.Faithful) {n min : Nat} {ts rest : List τ}
    {c : Cst α π ι ω} :
    R.climb (n + 1) min ts = some (c, rest) ↔
      R.Reached n min ts c rest ∧ R.StopsAt n min rest := by
  constructor
  · intro h
    rw [climb] at h
    split at h
    · simp at h
    · rename_i lhs rest' hoperand
      exact loop_sound hR (.operand hoperand) (Nat.le_refl _) h
  · rintro ⟨hreached, hstops⟩
    obtain ⟨k, -, hclimb⟩ := loop_complete hR hreached
    rw [hclimb]
    cases k with
    | zero => rfl
    | succ k =>
      rw [loop]
      split
      · rfl
      · rename_i f ts' hpeek
        split
        · rfl
        · rename_i op hsettle
          rw [if_pos (hstops f ts' op hpeek hsettle)]

end climbing.Reader
