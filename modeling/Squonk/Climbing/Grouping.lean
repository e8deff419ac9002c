import Mathlib.Data.List.Basic
import Squonk.Climbing.Runs

/-!
# Exact grouping

When a climb reads an expression back from its own tokens. The condition is local: every
operator is above the reads still open at the right end of its left operand, and every
operator on the left spine of a right operand is at least as tight as the power it is
read at.
-/

namespace climbing.Reader

variable {τ α π ι ω : Type} [DecidableEq τ] (R : Reader τ α π ι ω)

/-- The highest left power the operator at the front may turn out to have. -/
def bound : Fold ι ω → Nat
  | .inf o => R.left o
  | .post q => R.postLeft q
  | .either o q => max (o.elim 0 R.left) (R.postLeft q)
  | .refused p => p

/-- No operator in front of `ts` binds at least as tightly as `min`, however it settles. -/
def Stops (min : Nat) (ts : List τ) : Prop :=
  ∀ f rest, R.peek ts = some (f, rest) → R.bound f < min

/-- An operator that may be postfix here may also be infix, with the same power. -/
def Firm (ts : List τ) : Prop :=
  ∀ o q rest, R.peek ts = some (.either o q, rest) → ∃ i, o = some i ∧ R.left i = R.postLeft q

/-- Every operator on the left spine binds at least as tightly as `min`. -/
def LeftSpine (min : Nat) : Cst α π ι ω → Prop
  | .inf l o _ => min ≤ R.left o ∧ LeftSpine min l
  | .mix l o _ _ => min ≤ R.left o ∧ LeftSpine min l
  | .post l q => min ≤ R.postLeft q ∧ LeftSpine min l
  | _ => True

/-- Every read still open at the right end stops in front of an operator of left power `p`. -/
def RightSpine (p : Nat) : Cst α π ι ω → Prop
  | .pre q c => p < R.prePower q ∧ RightSpine p c
  | .inf _ o r => p < R.right o ∧ RightSpine p r
  | .mix _ o _ r => p < R.right o ∧ RightSpine p r
  | _ => True

/-- The input behind an expression starts with no operator that an open read would take. -/
def RightStops (rest : List τ) (c : Cst α π ι ω) : Prop :=
  ∀ f rest', R.peek rest = some (f, rest') → R.RightSpine (R.bound f) c

/-- Behind the left operand `l`, the reader takes `o` for an infix operator. -/
def Picks (l : Cst α π ι ω) (o : ι) (ts : List τ) : Prop :=
  (R.peek (R.infToks o ++ ts) = some (.inf o, ts) ∨
    ∃ q, R.peek (R.infToks o ++ ts) = some (.either (some o) q, ts)) ∧
    R.blocked l (.inl o) = false

/-- Behind the left operand `l`, the reader takes `q` for a postfix operator. -/
def PicksPost (l : Cst α π ι ω) (q : ω) (ts : List τ) : Prop :=
  (R.peek (R.postToks q ++ ts) = some (.post q, ts) ∨
    (∃ o, R.peek (R.postToks q ++ ts) = some (.either o q, ts)) ∧
      ∀ n, R.follows (R.climb n) ts = false) ∧ R.blocked l (.inr q) = false

/-- The expression groups as it is written, with `rest` behind it. -/
def Grouped : Cst α π ι ω → List τ → Prop
  | .atom a, rest => R.head (R.atomToks a ++ rest) = some (.atom a, rest)
  | .group c, rest => Grouped c (R.closing :: rest)
  | .pre p c, rest =>
    R.head (R.preToks p ++ (c.tokens R.toLexicon ++ rest)) =
        some (.pre p, c.tokens R.toLexicon ++ rest) ∧
      R.LeftSpine (R.prePower p) c ∧ Grouped c rest
  | .inf l o r, rest =>
    let behind := r.tokens R.toLexicon ++ rest
    Grouped l (R.infToks o ++ behind) ∧ R.RightStops (R.infToks o ++ behind) l ∧
      R.Picks l o behind ∧ R.LeftSpine (R.right o) r ∧ Grouped r rest ∧ R.cont o rest = some none
  | .mix l o m r, rest =>
    let sep := R.sepToks o ++ (r.tokens R.toLexicon ++ rest)
    let behind := m.tokens R.toLexicon ++ sep
    Grouped l (R.infToks o ++ behind) ∧ R.RightStops (R.infToks o ++ behind) l ∧
      R.Picks l o behind ∧ R.LeftSpine (R.right o) m ∧ Grouped m sep ∧
      R.RightStops sep m ∧ R.Stops (R.right o) sep ∧
      R.cont o sep = some (some (r.tokens R.toLexicon ++ rest)) ∧
      R.LeftSpine (R.right o) r ∧ Grouped r rest
  | .post l q, rest =>
    Grouped l (R.postToks q ++ rest) ∧ R.RightStops (R.postToks q ++ rest) l ∧
      R.PicksPost l q rest

/-- No postfix operator of the expression is one that could also be infix. -/
def Steady : Cst α π ι ω → Prop
  | .atom _ => True
  | .group c => Steady c
  | .pre _ c => Steady c
  | .inf l _ r => Steady l ∧ Steady r
  | .mix l _ m r => Steady l ∧ Steady m ∧ Steady r
  | .post l q => Steady l ∧ ∀ ts o rest, R.peek ts ≠ some (.either o q, rest)

variable {R}

omit [DecidableEq τ] in
theorem leftSpine_zero (c : Cst α π ι ω) : R.LeftSpine 0 c := by
  induction c with
  | inf l o r ihl _ => exact ⟨Nat.zero_le _, ihl⟩
  | mix l o m r ihl _ _ => exact ⟨Nat.zero_le _, ihl⟩
  | post l q ih => exact ⟨Nat.zero_le _, ih⟩
  | _ => exact trivial

omit [DecidableEq τ] in
theorem rightStops_closing (hR : R.Faithful) (c : Cst α π ι ω) (rest : List τ) :
    R.RightStops (R.closing :: rest) c := by
  intro f rest' hpeek
  rw [hR.peek_closing] at hpeek
  cases hpeek

omit [DecidableEq τ] in
theorem stops_closing (hR : R.Faithful) (min : Nat) (rest : List τ) :
    R.Stops min (R.closing :: rest) := by
  intro f rest' hpeek
  rw [hR.peek_closing] at hpeek
  cases hpeek

omit [DecidableEq τ] in
theorem rightStops_iff_of_peek {rest rest' : List τ} {f : Fold ι ω}
    (hpeek : R.peek rest = some (f, rest')) (c : Cst α π ι ω) :
    R.RightStops rest c ↔ R.RightSpine (R.bound f) c := by
  constructor
  · exact fun h => h f rest' hpeek
  · intro h f' rest'' hpeek'
    rw [hpeek] at hpeek'
    obtain ⟨rfl, -⟩ := Prod.mk.inj (Option.some.inj hpeek')
    exact h

/-! ## Powers -/

theorem power_le_bound {n : Nat} {f : Fold ι ω} {ts : List τ} {op : Nat ⊕ (ι ⊕ ω)}
    (h : R.settle (R.climb n) f ts = some op) : R.power op ≤ R.bound f := by
  rcases op with p | o | q
  · cases f with
    | refused p' =>
      simp only [settle, Option.some.injEq, Sum.inl.injEq] at h
      exact Nat.le_of_eq h.symm
    | either o q =>
      cases hfollows : R.follows (R.climb n) ts
      all_goals simp [settle, hfollows] at h
    | _ => simp [settle] at h
  · rcases settle_inl h with rfl | ⟨⟨q, rfl⟩, -⟩
    · exact Nat.le_refl _
    · exact Nat.le_max_left _ _
  · rcases settle_inr h with rfl | ⟨⟨o, rfl⟩, -⟩
    · exact Nat.le_refl _
    · exact Nat.le_max_right _ _

theorem Stops.at {min : Nat} {ts : List τ} (h : R.Stops min ts) (n : Nat) :
    R.StopsAt n min ts :=
  fun f rest _ hpeek hsettle => Nat.lt_of_le_of_lt (power_le_bound hsettle) (h f rest hpeek)

theorem exists_settle_of_firm {ts rest : List τ} {f : Fold ι ω} (hfirm : R.Firm ts)
    (hpeek : R.peek ts = some (f, rest)) (n : Nat) :
    ∃ op, R.settle (R.climb n) f rest = some op ∧ R.power op = R.bound f := by
  cases f with
  | inf o => exact ⟨_, rfl, rfl⟩
  | post q => exact ⟨_, rfl, rfl⟩
  | refused p => exact ⟨_, rfl, rfl⟩
  | either o q =>
    obtain ⟨i, rfl, heq⟩ := hfirm o q rest hpeek
    cases hfollows : R.follows (R.climb n) rest
    · exact ⟨.inr (.inr q), by simp [settle, hfollows], by simp [power, bound, heq]⟩
    · exact ⟨.inr (.inl i), by simp [settle, hfollows], by simp [power, bound, heq]⟩

theorem stops_of_firm {n min : Nat} {ts : List τ} (hfirm : R.Firm ts) (h : R.StopsAt n min ts) :
    R.Stops min ts := by
  intro f rest hpeek
  obtain ⟨op, hsettle, hpower⟩ := exists_settle_of_firm hfirm hpeek n
  rw [← hpower]
  exact h f rest op hpeek hsettle

omit [DecidableEq τ] in
private theorem stops_of_rightStops_inf {l r : Cst α π ι ω} {o : ι} {rest : List τ}
    (h : R.RightStops rest (.inf l o r)) : R.Stops (R.right o) rest ∧ R.RightStops rest r :=
  ⟨fun f rest' hpeek => (h f rest' hpeek).1, fun f rest' hpeek => (h f rest' hpeek).2⟩

omit [DecidableEq τ] in
private theorem stops_of_rightStops_mix {l m r : Cst α π ι ω} {o : ι} {rest : List τ}
    (h : R.RightStops rest (.mix l o m r)) : R.Stops (R.right o) rest ∧ R.RightStops rest r :=
  ⟨fun f rest' hpeek => (h f rest' hpeek).1, fun f rest' hpeek => (h f rest' hpeek).2⟩

omit [DecidableEq τ] in
private theorem stops_of_rightStops_pre {p : π} {c : Cst α π ι ω} {rest : List τ}
    (h : R.RightStops rest (.pre p c)) : R.Stops (R.prePower p) rest ∧ R.RightStops rest c :=
  ⟨fun f rest' hpeek => (h f rest' hpeek).1, fun f rest' hpeek => (h f rest' hpeek).2⟩

/-- Where an operand can be read, an operator the reader may take for infix is infix. -/
private theorem settle_of_picks {l : Cst α π ι ω} {o : ι} {ts : List τ} {n : Nat}
    (hpicks : R.Picks l o ts) (h : (R.operand (R.climb n) ts).isSome) :
    ∃ f, R.peek (R.infToks o ++ ts) = some (f, ts) ∧
      R.settle (R.climb n) f ts = some (.inr (.inl o)) := by
  rcases hpicks.1 with hpeek | ⟨q, hpeek⟩
  · exact ⟨_, hpeek, rfl⟩
  · exact ⟨_, hpeek, by simp [settle, follows, h]⟩

/-! ## A grouped expression is read -/

/-- A grouped expression is reached, and its first operand is one that can be read. -/
private theorem reached_of_grouped (hR : R.Faithful) {c : Cst α π ι ω}
    {n min : Nat} {rest : List τ} (hheight : c.height ≤ n + 1) (hleft : R.LeftSpine min c)
    (hgrouped : R.Grouped c rest) (hright : R.RightStops rest c) :
    R.Reached n min (c.tokens R.toLexicon ++ rest) c rest ∧
      (R.operand (R.climb n) (c.tokens R.toLexicon ++ rest)).isSome := by
  induction c generalizing n min rest with
  | atom a =>
    have hhead : R.head (R.atomToks a ++ rest) = some (.atom a, rest) := hgrouped
    have hoperand : R.operand (R.climb n) (R.atomToks a ++ rest) = some (.atom a, rest) := by
      rw [operand, hhead]
    exact ⟨.operand hoperand, by rw [Cst.tokens, hoperand]; rfl⟩
  | group c ih =>
    have hpos := c.height_pos
    rw [Cst.height] at hheight
    obtain ⟨m, rfl⟩ : ∃ m, n = m + 1 := ⟨n - 1, by omega⟩
    have hinner := (ih (n := m) (by omega) (leftSpine_zero c) hgrouped
      (rightStops_closing hR c rest)).1
    have hclimb := (climb_eq_some_iff hR).mpr ⟨hinner, (stops_closing hR 0 rest).at m⟩
    have htokens : (Cst.group c).tokens R.toLexicon ++ rest =
        R.opening :: (c.tokens R.toLexicon ++ R.closing :: rest) := by
      simp [Cst.tokens]
    have hoperand : R.operand (R.climb (m + 1)) ((Cst.group c).tokens R.toLexicon ++ rest) =
        some (.group c, rest) := by
      rw [htokens, operand, hR.head_opening_eq]
      simp [hclimb]
    exact ⟨.operand hoperand, by rw [hoperand]; rfl⟩
  | pre p c ih =>
    have hpos := c.height_pos
    rw [Cst.height] at hheight
    obtain ⟨m, rfl⟩ : ∃ m, n = m + 1 := ⟨n - 1, by omega⟩
    obtain ⟨hhead, hspine, hinner⟩ := hgrouped
    obtain ⟨hstops, hrest⟩ := stops_of_rightStops_pre hright
    have hreached := (ih (n := m) (by omega) hspine hinner hrest).1
    have hclimb := (climb_eq_some_iff hR).mpr ⟨hreached, hstops.at m⟩
    have hoperand : R.operand (R.climb (m + 1)) ((Cst.pre p c).tokens R.toLexicon ++ rest) =
        some (.pre p c, rest) := by
      rw [Cst.tokens, List.append_assoc, operand, hhead]
      simp [hclimb]
    exact ⟨.operand hoperand, by rw [hoperand]; rfl⟩
  | inf l o r ihl ihr =>
    have hpos := r.height_pos
    rw [Cst.height] at hheight
    obtain ⟨m, rfl⟩ : ∃ m, n = m + 1 := ⟨n - 1, by omega⟩
    obtain ⟨hl, hopen, hpicks, hspine, hr, hcont⟩ := hgrouped
    obtain ⟨hstops, hrest⟩ := stops_of_rightStops_inf hright
    obtain ⟨hreached, hfirst⟩ := ihl (n := m + 1) (by omega) hleft.2 hl hopen
    have hread := (climb_eq_some_iff hR).mpr
      ⟨(ihr (n := m) (by omega) hspine hr hrest).1, hstops.at m⟩
    obtain ⟨f, hpeek, hsettle⟩ :=
      settle_of_picks hpicks (ihr (n := m + 1) (by omega) hspine hr hrest).2
    rw [Cst.tokens, List.append_assoc, List.append_assoc]
    refine ⟨.step hreached hpeek hsettle hleft.1 ?_, hfirst⟩
    rw [step, if_neg (by simp [hpicks.2])]
    simp only [hread, hcont]
  | mix l o m r ihl ihm ihr =>
    have hpos := r.height_pos
    rw [Cst.height] at hheight
    obtain ⟨k, rfl⟩ : ∃ k, n = k + 1 := ⟨n - 1, by omega⟩
    obtain ⟨hl, hopen, hpicks, hspine, hm, hsepEdge, hsep, hcont, hspine', hr⟩ := hgrouped
    obtain ⟨hstops, hrest⟩ := stops_of_rightStops_mix hright
    obtain ⟨hreached, hfirst⟩ := ihl (n := k + 1) (by omega) hleft.2 hl hopen
    have hread := (climb_eq_some_iff hR).mpr
      ⟨(ihm (n := k) (by omega) hspine hm hsepEdge).1, hsep.at k⟩
    have hlast := (climb_eq_some_iff hR).mpr
      ⟨(ihr (n := k) (by omega) hspine' hr hrest).1, hstops.at k⟩
    obtain ⟨f, hpeek, hsettle⟩ :=
      settle_of_picks hpicks (ihm (n := k + 1) (by omega) hspine hm hsepEdge).2
    rw [Cst.tokens]
    simp only [List.append_assoc]
    refine ⟨.step hreached hpeek hsettle hleft.1 ?_, hfirst⟩
    rw [step, if_neg (by simp [hpicks.2])]
    simp only [hread, hcont, hlast, Option.map_some]
  | post l q ih =>
    rw [Cst.height] at hheight
    obtain ⟨hl, hopen, hpicks, hfree⟩ := hgrouped
    obtain ⟨hreached, hfirst⟩ := ih hheight hleft.2 hl hopen
    have hsettled : ∃ f, R.peek (R.postToks q ++ rest) = some (f, rest) ∧
        R.settle (R.climb n) f rest = some (.inr (.inr q)) := by
      rcases hpicks with hpeek | ⟨⟨o, hpeek⟩, hfollows⟩
      · exact ⟨_, hpeek, rfl⟩
      · exact ⟨_, hpeek, by simp [settle, hfollows]⟩
    obtain ⟨f, hpeek, hsettle⟩ := hsettled
    rw [Cst.tokens, List.append_assoc]
    refine ⟨.step hreached hpeek hsettle hleft.1 ?_, hfirst⟩
    rw [step, if_neg (by simp [hfree])]

/-- An expression that is grouped is read back from its tokens, whatever the budget beyond
    its height. -/
theorem climb_of_grouped (hR : R.Faithful) {c : Cst α π ι ω} {n min : Nat}
    {rest : List τ} (hheight : c.height ≤ n) (hleft : R.LeftSpine min c)
    (hgrouped : R.Grouped c rest) (hright : R.RightStops rest c) (hstops : R.Stops min rest) :
    R.climb n min (c.tokens R.toLexicon ++ rest) = some (c, rest) := by
  have hpos := c.height_pos
  obtain ⟨m, rfl⟩ : ∃ m, n = m + 1 := ⟨n - 1, by omega⟩
  have hreached := (reached_of_grouped hR hheight hleft hgrouped hright).1
  exact (climb_eq_some_iff hR).mpr ⟨hreached, hstops.at m⟩

/-! ## What is read is grouped -/

section Inversion

variable {n min : Nat} {ts rest : List τ}

private theorem climb_pos {c : Cst α π ι ω} (h : R.climb n min ts = some (c, rest)) :
    ∃ m, n = m + 1 := by
  cases n with
  | zero => simp [climb] at h
  | succ m => exact ⟨m, rfl⟩

private theorem reached_atom {a : α} (h : R.Reached n min ts (.atom a) rest) :
    R.head ts = some (.atom a, rest) := by
  cases h with
  | operand h =>
    rcases operand_cases h with ⟨b, hhead, heq⟩ | ⟨p, ts', d, -, -, heq⟩ | ⟨ts', d, -, -, heq⟩
    · rwa [Cst.atom.inj heq]
    · cases heq
    · cases heq
  | step _ _ _ _ hstep =>
    rcases step_cases hstep with ⟨q, -, -, heq, -⟩ | ⟨o, r, ts', -, -, -, ⟨-, heq, -⟩ |
      ⟨ts'', r', -, -, heq⟩⟩
    all_goals cases heq

private theorem reached_group {c : Cst α π ι ω} (h : R.Reached n min ts (.group c) rest) :
    ∃ ts', R.head ts = some (.opening, ts') ∧ R.climb n 0 ts' = some (c, R.closing :: rest) := by
  cases h with
  | operand h =>
    rcases operand_cases h with ⟨b, -, heq⟩ | ⟨p, ts', d, -, -, heq⟩ | ⟨ts', d, hhead, hread, heq⟩
    · cases heq
    · cases heq
    · exact ⟨ts', hhead, by rw [Cst.group.inj heq]; exact hread⟩
  | step _ _ _ _ hstep =>
    rcases step_cases hstep with ⟨q, -, -, heq, -⟩ | ⟨o, r, ts', -, -, -, ⟨-, heq, -⟩ |
      ⟨ts'', r', -, -, heq⟩⟩
    all_goals cases heq

private theorem reached_pre {p : π} {c : Cst α π ι ω} (h : R.Reached n min ts (.pre p c) rest) :
    ∃ ts', R.head ts = some (.pre p, ts') ∧ R.climb n (R.prePower p) ts' = some (c, rest) := by
  cases h with
  | operand h =>
    rcases operand_cases h with ⟨b, -, heq⟩ | ⟨q, ts', d, hhead, hread, heq⟩ | ⟨ts', d, -, -, heq⟩
    · cases heq
    · obtain ⟨rfl, rfl⟩ := Cst.pre.inj heq
      exact ⟨ts', hhead, hread⟩
    · cases heq
  | step _ _ _ _ hstep =>
    rcases step_cases hstep with ⟨q, -, -, heq, -⟩ | ⟨o, r, ts', -, -, -, ⟨-, heq, -⟩ |
      ⟨ts'', r', -, -, heq⟩⟩
    all_goals cases heq

private theorem reached_inf {l r : Cst α π ι ω} {o : ι} (h : R.Reached n min ts (.inf l o r) rest) :
    ∃ ts' f ts'', R.Reached n min ts l ts' ∧ R.peek ts' = some (f, ts'') ∧
      R.settle (R.climb n) f ts'' = some (.inr (.inl o)) ∧ min ≤ R.left o ∧
      R.blocked l (.inl o) = false ∧ R.climb n (R.right o) ts'' = some (r, rest) ∧
      R.cont o rest = some none := by
  cases h with
  | operand h =>
    rcases operand_cases h with ⟨b, -, heq⟩ | ⟨q, ts', d, -, -, heq⟩ | ⟨ts', d, -, -, heq⟩
    all_goals cases heq
  | step hreached hpeek hsettle hmin hstep =>
    rcases step_cases hstep with ⟨q, -, -, heq, -⟩ | ⟨o', r', ts', rfl, hfree, hright,
      ⟨hcont, heq, rfl⟩ | ⟨ts'', r'', -, -, heq⟩⟩
    · cases heq
    · obtain ⟨rfl, rfl, rfl⟩ := Cst.inf.inj heq
      exact ⟨_, _, _, hreached, hpeek, hsettle, hmin, hfree, hright, hcont⟩
    · cases heq

private theorem reached_mix {l m r : Cst α π ι ω} {o : ι}
    (h : R.Reached n min ts (.mix l o m r) rest) :
    ∃ ts' f ts'' mid sep, R.Reached n min ts l ts' ∧ R.peek ts' = some (f, ts'') ∧
      R.settle (R.climb n) f ts'' = some (.inr (.inl o)) ∧ min ≤ R.left o ∧
      R.blocked l (.inl o) = false ∧ R.climb n (R.right o) ts'' = some (m, mid) ∧
      R.cont o mid = some (some sep) ∧ R.climb n (R.right o) sep = some (r, rest) := by
  cases h with
  | operand h =>
    rcases operand_cases h with ⟨b, -, heq⟩ | ⟨q, ts', d, -, -, heq⟩ | ⟨ts', d, -, -, heq⟩
    all_goals cases heq
  | step hreached hpeek hsettle hmin hstep =>
    rcases step_cases hstep with ⟨q, -, -, heq, -⟩ | ⟨o', r', ts', rfl, hfree, hright,
      ⟨-, heq, -⟩ | ⟨ts'', r'', hcont, hlast, heq⟩⟩
    · cases heq
    · cases heq
    · obtain ⟨rfl, rfl, rfl, rfl⟩ := Cst.mix.inj heq
      exact ⟨_, _, _, ts', ts'', hreached, hpeek, hsettle, hmin, hfree, hright, hcont, hlast⟩

private theorem reached_post {l : Cst α π ι ω} {q : ω} (h : R.Reached n min ts (.post l q) rest) :
    ∃ ts' f, R.Reached n min ts l ts' ∧ R.peek ts' = some (f, rest) ∧
      R.settle (R.climb n) f rest = some (.inr (.inr q)) ∧ min ≤ R.postLeft q ∧
      R.blocked l (.inr q) = false := by
  cases h with
  | operand h =>
    rcases operand_cases h with ⟨b, -, heq⟩ | ⟨q, ts', d, -, -, heq⟩ | ⟨ts', d, -, -, heq⟩
    all_goals cases heq
  | step hreached hpeek hsettle hmin hstep =>
    rcases step_cases hstep with ⟨q', rfl, hfree, heq, rfl⟩ | ⟨o', r', ts', -, -, -,
      ⟨-, heq, -⟩ | ⟨ts'', r'', -, -, heq⟩⟩
    · obtain ⟨rfl, rfl⟩ := Cst.post.inj heq
      exact ⟨_, _, hreached, hpeek, hsettle, hmin, hfree⟩
    · cases heq
    · cases heq

end Inversion

private theorem picks_of_settle (hR : R.Faithful) {l : Cst α π ι ω} {ts rest : List τ} {f : Fold ι ω}
    {o : ι} {n : Nat} (hpeek : R.peek ts = some (f, rest))
    (hsettle : R.settle (R.climb n) f rest = some (.inr (.inl o))) (hfree : R.blocked l (.inl o) = false) :
    ts = R.infToks o ++ rest ∧ R.Picks l o rest := by
  rcases settle_inl hsettle with rfl | ⟨⟨q, rfl⟩, -⟩
  · have htoks := hR.peek_inf hpeek
    exact ⟨htoks, Or.inl (htoks ▸ hpeek), hfree⟩
  · have htoks := (hR.peek_either hpeek).2 o rfl
    exact ⟨htoks, Or.inr ⟨q, htoks ▸ hpeek⟩, hfree⟩

/-- The input is firm wherever an operand of the expression ends, with `rest` behind it. -/
def FirmBehind : Cst α π ι ω → List τ → Prop
  | .atom _, rest => R.Firm rest
  | .group c, rest => FirmBehind c (R.closing :: rest) ∧ R.Firm rest
  | .pre _ c, rest => FirmBehind c rest
  | .inf l o r, rest =>
    FirmBehind l (R.infToks o ++ (r.tokens R.toLexicon ++ rest)) ∧ FirmBehind r rest
  | .mix l o m r, rest =>
    let sep := R.sepToks o ++ (r.tokens R.toLexicon ++ rest)
    FirmBehind l (R.infToks o ++ (m.tokens R.toLexicon ++ sep)) ∧ FirmBehind m sep ∧
      FirmBehind r rest
  | .post l q, rest => FirmBehind l (R.postToks q ++ rest) ∧ R.Firm rest

omit [DecidableEq τ] in
theorem FirmBehind.firm {c : Cst α π ι ω} {rest : List τ} (h : R.FirmBehind c rest) :
    R.Firm rest := by
  induction c generalizing rest with
  | atom a => exact h
  | group c _ => exact h.2
  | pre p c ih => exact ih h
  | inf l o r _ ihr => exact ihr h.2
  | mix l o m r _ _ ihr => exact ihr h.2.2
  | post l q _ => exact h.2

/-- A reached expression is grouped and no higher than the budget allows. -/
private theorem grouped_of_reached (hR : R.Faithful) {c : Cst α π ι ω} (hsteady : R.Steady c)
    {n min : Nat} {rest : List τ} (hfirm : R.FirmBehind c rest)
    (h : R.Reached n min (c.tokens R.toLexicon ++ rest) c rest) :
    c.height ≤ n + 1 ∧ R.LeftSpine min c ∧ R.Grouped c rest ∧ R.RightStops rest c := by
  induction c generalizing n min rest with
  | atom a => exact ⟨by simp [Cst.height], trivial, reached_atom h, fun _ _ _ => trivial⟩
  | group c ih =>
    obtain ⟨ts', hhead, hread⟩ := reached_group h
    obtain ⟨m, rfl⟩ := climb_pos hread
    have htoks := climb_tokens hR hread
    subst htoks
    obtain ⟨hheight, -, hgrouped, -⟩ := ih hsteady hfirm.1 ((climb_eq_some_iff hR).mp hread).1
    exact ⟨by rw [Cst.height]; omega, trivial, hgrouped, fun _ _ _ => trivial⟩
  | pre p c ih =>
    obtain ⟨ts', hhead, hread⟩ := reached_pre h
    obtain ⟨m, rfl⟩ := climb_pos hread
    have htoks := climb_tokens hR hread
    subst htoks
    rw [Cst.tokens, List.append_assoc] at hhead
    have hread' := (climb_eq_some_iff hR).mp hread
    obtain ⟨hheight, hspine, hgrouped, hright⟩ := ih hsteady hfirm hread'.1
    have hstops := stops_of_firm (@FirmBehind.firm _ _ _ _ _ _ c _ hfirm) hread'.2
    exact ⟨by rw [Cst.height]; omega, trivial, ⟨hhead, hspine, hgrouped⟩,
      fun f rest' hpeek => ⟨hstops f rest' hpeek, hright f rest' hpeek⟩⟩
  | inf l o r ihl ihr =>
    obtain ⟨ts', f, ts'', hreached, hpeek, hsettle, hmin, hfree, hright, hcont⟩ := reached_inf h
    obtain ⟨m, rfl⟩ := climb_pos hright
    have htoks := climb_tokens hR hright
    have hright' := (climb_eq_some_iff hR).mp (htoks ▸ hright)
    obtain ⟨hop, hpicks⟩ := picks_of_settle hR hpeek hsettle hfree
    subst hop
    rw [htoks] at hreached hpicks
    rw [Cst.tokens, List.append_assoc, List.append_assoc] at hreached
    obtain ⟨hheightR, hspineR, hgroupedR, hrightR⟩ := ihr hsteady.2 hfirm.2 hright'.1
    obtain ⟨hheightL, hspineL, hgroupedL, hrightL⟩ := ihl hsteady.1 hfirm.1 hreached
    have hstops := stops_of_firm hfirm.2.firm hright'.2
    exact ⟨by rw [Cst.height]; omega, ⟨hmin, hspineL⟩,
      ⟨hgroupedL, hrightL, hpicks, hspineR, hgroupedR, hcont⟩,
      fun f rest' hpeek => ⟨hstops f rest' hpeek, hrightR f rest' hpeek⟩⟩
  | mix l o m r ihl ihm ihr =>
    obtain ⟨ts', f, ts'', mid, sep, hreached, hpeek, hsettle, hmin, hfree, hmid, hcont, hlast⟩ :=
      reached_mix h
    obtain ⟨k, rfl⟩ := climb_pos hmid
    have hlastToks := climb_tokens hR hlast
    have hsepToks := hR.cont hcont
    have hmidToks := climb_tokens hR hmid
    obtain ⟨hop, hpicks⟩ := picks_of_settle hR hpeek hsettle hfree
    subst hop
    rw [hmidToks, hsepToks, hlastToks] at hreached hpicks
    rw [hmidToks, hsepToks, hlastToks] at hmid
    rw [hsepToks, hlastToks] at hcont
    rw [hlastToks] at hlast
    have hmid' := (climb_eq_some_iff hR).mp hmid
    have hlast' := (climb_eq_some_iff hR).mp hlast
    rw [Cst.tokens] at hreached
    simp only [List.append_assoc] at hreached
    obtain ⟨hfirmL, hfirmM, hfirmR⟩ := hfirm
    obtain ⟨hheightL, hspineL, hgroupedL, hrightL⟩ := ihl hsteady.1 hfirmL hreached
    obtain ⟨hheightM, hspineM, hgroupedM, hrightM⟩ := ihm hsteady.2.1 hfirmM hmid'.1
    obtain ⟨hheightR, hspineR, hgroupedR, hrightR⟩ := ihr hsteady.2.2 hfirmR hlast'.1
    have hstopsM := stops_of_firm hfirmM.firm hmid'.2
    have hstops := stops_of_firm hfirmR.firm hlast'.2
    exact ⟨by rw [Cst.height]; omega, ⟨hmin, hspineL⟩,
      ⟨hgroupedL, hrightL, hpicks, hspineM, hgroupedM, hrightM, hstopsM, hcont, hspineR,
        hgroupedR⟩,
      fun f rest' hpeek => ⟨hstops f rest' hpeek, hrightR f rest' hpeek⟩⟩
  | post l q ih =>
    obtain ⟨ts', f, hreached, hpeek, hsettle, hmin, hfree⟩ := reached_post h
    rcases settle_inr hsettle with rfl | ⟨⟨o, rfl⟩, -⟩
    · have htoks := hR.peek_post hpeek
      subst htoks
      rw [Cst.tokens, List.append_assoc] at hreached
      obtain ⟨hheight, hspine, hgrouped, hright⟩ := ih hsteady.1 hfirm.1 hreached
      exact ⟨by rwa [Cst.height], ⟨hmin, hspine⟩, ⟨hgrouped, hright, Or.inl hpeek, hfree⟩,
        fun _ _ _ => trivial⟩
    · exact absurd hpeek (hsteady.2 _ _ _)

/-- The climb reads an expression back from its tokens exactly when the expression fits the
    budget, is tight enough on the left, groups as written, and what follows belongs to no
    open read. -/
theorem climb_tokens_iff (hR : R.Faithful) {c : Cst α π ι ω} (hsteady : R.Steady c) {n min : Nat}
    {rest : List τ} (hfirm : R.FirmBehind c rest) :
    R.climb n min (c.tokens R.toLexicon ++ rest) = some (c, rest) ↔
      c.height ≤ n ∧ R.LeftSpine min c ∧ R.Grouped c rest ∧ R.RightStops rest c ∧
        R.Stops min rest := by
  constructor
  · intro h
    obtain ⟨m, rfl⟩ := climb_pos h
    obtain ⟨hreached, hstops⟩ := (climb_eq_some_iff hR).mp h
    obtain ⟨hheight, hspine, hgrouped, hright⟩ := grouped_of_reached hR hsteady hfirm hreached
    exact ⟨hheight, hspine, hgrouped, hright, stops_of_firm hfirm.firm hstops⟩
  · rintro ⟨hheight, hspine, hgrouped, hright, hstops⟩
    exact climb_of_grouped hR hheight hspine hgrouped hright hstops

end climbing.Reader
