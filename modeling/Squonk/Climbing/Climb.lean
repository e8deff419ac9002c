import Mathlib.Data.List.Basic
import Squonk.Climbing.Cst

/-!
# Precedence climbing

A precedence climb over arbitrary tokens and operators, with a budget for nested
operand reads, and what it means for a climb to have read a given expression.
-/

namespace climbing

/-- What the front of the input is in operand position. -/
inductive Head (α π : Type)
  | atom (a : α)
  | opening
  | pre (p : π)

/-- What the front of the input is in operator position. `either` is an operator that is
    postfix where no operand follows it, and otherwise infix or no operator at all; `refused`
    is one of the given power that the input does not complete. -/
inductive Fold (ι ω : Type)
  | inf (o : ι)
  | post (q : ω)
  | either (o : Option ι) (q : ω)
  | refused (power : Nat)

/-- A lexicon together with the decisions a climb takes: how operands and operators start,
    and the binding powers. -/
structure Reader (τ α π ι ω : Type) extends Lexicon τ α π ι ω where
  prePower : π → Nat
  left : ι → Nat
  right : ι → Nat
  postLeft : ω → Nat
  /-- Reads an atom, an opening parenthesis or a prefix operator. -/
  head : List τ → Option (Head α π × List τ)
  /-- Reads the operator at the front of the input, if there is one. -/
  peek : List τ → Option (Fold ι ω × List τ)
  /-- Whether an operand certainly follows, without trying to read one. -/
  surely : List τ → Bool
  /-- Whether an operator may not stand behind a left operand. -/
  blocked : Cst α π ι ω → ι ⊕ ω → Bool
  /-- Decides behind a right operand whether the operator reads a second one. -/
  cont : ι → List τ → Option (Option (List τ))

variable {τ α π ι ω : Type}

namespace Reader

variable [DecidableEq τ] (R : Reader τ α π ι ω)

/-- Read one operand: an atom, a parenthesized expression, or a prefix operator and what it
    applies to. `climb` reads the expressions inside. -/
def operand (climb : Nat → List τ → Option (Cst α π ι ω × List τ)) (ts : List τ) :
    Option (Cst α π ι ω × List τ) :=
  match R.head ts with
  | none => none
  | some (.atom a, rest) => some (.atom a, rest)
  | some (.pre p, rest) => (climb (R.prePower p) rest).map fun (c, rest) => (.pre p c, rest)
  | some (.opening, rest) =>
    match climb 0 rest with
    | some (c, t :: rest) => if t = R.closing then some (.group c, rest) else none
    | _ => none

/-- Whether an operand can be read here. -/
def follows (climb : Nat → List τ → Option (Cst α π ι ω × List τ)) (ts : List τ) : Bool :=
  R.surely ts || (R.operand climb ts).isSome

/-- Settle an operator that depends on what follows it, if there is one at all. -/
def settle (climb : Nat → List τ → Option (Cst α π ι ω × List τ)) (f : Fold ι ω)
    (ts : List τ) : Option (Nat ⊕ (ι ⊕ ω)) :=
  match f with
  | .inf o => some (.inr (.inl o))
  | .post q => some (.inr (.inr q))
  | .either o q =>
    bif R.follows climb ts then o.map fun o => .inr (.inl o) else some (.inr (.inr q))
  | .refused p => some (.inl p)

/-- The left power of a settled operator. -/
def power : Nat ⊕ (ι ⊕ ω) → Nat
  | .inl p => p
  | .inr (.inl o) => R.left o
  | .inr (.inr q) => R.postLeft q

/-- Fold a settled operator onto a left operand, with the input behind the operator. -/
def step (climb : Nat → List τ → Option (Cst α π ι ω × List τ)) (lhs : Cst α π ι ω) :
    Nat ⊕ (ι ⊕ ω) → List τ → Option (Cst α π ι ω × List τ)
  | .inl _, _ => none
  | .inr (.inr q), ts => if R.blocked lhs (.inr q) then none else some (.post lhs q, ts)
  | .inr (.inl o), ts =>
    if R.blocked lhs (.inl o) then none
    else
      match climb (R.right o) ts with
      | none => none
      | some (r, ts) =>
        match R.cont o ts with
        | none => none
        | some none => some (.inf lhs o r, ts)
        | some (some ts) => (climb (R.right o) ts).map fun (r', ts) => (.mix lhs o r r', ts)

/-- The loop of the climb: fold operators of left power at least `min`. -/
def loop (climb : Nat → List τ → Option (Cst α π ι ω × List τ)) (min : Nat) :
    Nat → Cst α π ι ω → List τ → Option (Cst α π ι ω × List τ)
  | 0, lhs, ts => some (lhs, ts)
  | k + 1, lhs, ts =>
    match R.peek ts with
    | none => some (lhs, ts)
    | some (f, rest) =>
      match R.settle climb f rest with
      | none => some (lhs, ts)
      | some op =>
        if R.power op < min then some (lhs, ts)
        else
          match R.step climb lhs op rest with
          | none => none
          | some (lhs, ts) => loop climb min k lhs ts

/-- The climb at budget `n` for nested reads, accepting operators of left power at least
    `min`. -/
def climb : Nat → Nat → List τ → Option (Cst α π ι ω × List τ)
  | 0, _, _ => none
  | n + 1, min, ts =>
    match R.operand (climb n) ts with
    | none => none
    | some (lhs, rest) => R.loop (climb n) min rest.length lhs rest

/-- At budget `n` the climb stops in front of `ts`: no operator there binds at least as
    tightly as `min`. -/
def StopsAt (n min : Nat) (ts : List τ) : Prop :=
  ∀ f rest op, R.peek ts = some (f, rest) → R.settle (R.climb n) f rest = some op →
    R.power op < min

/-- What a reader promises about the input it consumes. -/
structure Faithful : Prop where
  head_atom : ∀ {ts a rest}, R.head ts = some (.atom a, rest) → ts = R.atomToks a ++ rest
  head_opening : ∀ {ts rest}, R.head ts = some (.opening, rest) → ts = R.opening :: rest
  head_pre : ∀ {ts p rest}, R.head ts = some (.pre p, rest) → ts = R.preToks p ++ rest
  peek_inf : ∀ {ts o rest}, R.peek ts = some (.inf o, rest) → ts = R.infToks o ++ rest
  peek_post : ∀ {ts q rest}, R.peek ts = some (.post q, rest) → ts = R.postToks q ++ rest
  peek_either : ∀ {ts o q rest}, R.peek ts = some (.either o q, rest) →
    ts = R.postToks q ++ rest ∧ ∀ i ∈ o, ts = R.infToks i ++ rest
  cont : ∀ {o ts rest}, R.cont o ts = some (some rest) → ts = R.sepToks o ++ rest
  infToks_ne_nil : ∀ o, R.infToks o ≠ []
  postToks_ne_nil : ∀ q, R.postToks q ≠ []
  peek_nil : R.peek [] = none
  peek_closing : ∀ ts, R.peek (R.closing :: ts) = none
  head_opening_eq : ∀ ts, R.head (R.opening :: ts) = some (.opening, ts)

/-- The states a climb passes through: an expression read so far and the input behind it. -/
inductive Reached (n min : Nat) (ts : List τ) : Cst α π ι ω → List τ → Prop
  | operand {c rest} (h : R.operand (R.climb n) ts = some (c, rest)) : Reached n min ts c rest
  | step {c rest f ts' op d rest'} (h : Reached n min ts c rest)
      (hpeek : R.peek rest = some (f, ts')) (hsettle : R.settle (R.climb n) f ts' = some op)
      (hmin : min ≤ R.power op) (hstep : R.step (R.climb n) c op ts' = some (d, rest')) :
      Reached n min ts d rest'

variable {R}

theorem settle_inl {climb : Nat → List τ → Option (Cst α π ι ω × List τ)} {f : Fold ι ω}
    {ts : List τ} {o : ι} (h : R.settle climb f ts = some (.inr (.inl o))) :
    f = .inf o ∨ (∃ q, f = .either (some o) q) ∧ R.follows climb ts = true := by
  cases f with
  | inf o' => exact Or.inl (by simpa [settle] using h)
  | post q => simp [settle] at h
  | refused p => simp [settle] at h
  | either o' q =>
    cases hfollows : R.follows climb ts
    · simp [settle, hfollows] at h
    · simp only [settle, hfollows, cond_true, Option.map_eq_some_iff, Sum.inr.injEq,
        Sum.inl.injEq] at h
      obtain ⟨i, hi, rfl⟩ := h
      exact Or.inr ⟨⟨q, by rw [hi]⟩, rfl⟩

theorem settle_inr {climb : Nat → List τ → Option (Cst α π ι ω × List τ)} {f : Fold ι ω}
    {ts : List τ} {q : ω} (h : R.settle climb f ts = some (.inr (.inr q))) :
    f = .post q ∨ (∃ o, f = .either o q) ∧ R.follows climb ts = false := by
  cases f with
  | inf o => simp [settle] at h
  | post q' => exact Or.inl (by simpa [settle] using h)
  | refused p => simp [settle] at h
  | either o q' =>
    cases hfollows : R.follows climb ts
    · simp only [settle, hfollows, cond_false, Option.some.injEq, Sum.inr.injEq] at h
      exact Or.inr ⟨⟨o, by rw [h]⟩, rfl⟩
    · simp [settle, hfollows] at h

omit [DecidableEq τ] in
/-- The ways a step can succeed. -/
theorem step_cases {climb : Nat → List τ → Option (Cst α π ι ω × List τ)}
    {lhs d : Cst α π ι ω} {s : Nat ⊕ (ι ⊕ ω)} {ts rest : List τ}
    (h : R.step climb lhs s ts = some (d, rest)) :
    (∃ q, s = .inr (.inr q) ∧ R.blocked lhs (.inr q) = false ∧ d = .post lhs q ∧ rest = ts) ∨
      ∃ o r ts', s = .inr (.inl o) ∧ R.blocked lhs (.inl o) = false ∧
        climb (R.right o) ts = some (r, ts') ∧
        ((R.cont o ts' = some none ∧ d = .inf lhs o r ∧ rest = ts') ∨
          ∃ ts'' r', R.cont o ts' = some (some ts'') ∧ climb (R.right o) ts'' = some (r', rest) ∧
            d = .mix lhs o r r') := by
  rcases s with p | o | q
  · simp [step] at h
  · rw [step] at h
    split at h
    · simp at h
    · rename_i hblocked
      have hfree : R.blocked lhs (.inl o) = false := by simpa using hblocked
      cases hright : climb (R.right o) ts with
      | none => simp [hright] at h
      | some read =>
        obtain ⟨r, ts'⟩ := read
        simp only [hright] at h
        refine Or.inr ⟨o, r, ts', rfl, hfree, hright, ?_⟩
        cases hcont : R.cont o ts' with
        | none => simp [hcont] at h
        | some more =>
          cases more with
          | none =>
            simp only [hcont, Option.some.injEq, Prod.mk.injEq] at h
            exact Or.inl ⟨rfl, h.1.symm, h.2.symm⟩
          | some ts'' =>
            simp only [hcont, Option.map_eq_some_iff] at h
            obtain ⟨⟨r', rest'⟩, hlast, heq⟩ := h
            obtain ⟨rfl, rfl⟩ := Prod.mk.inj heq
            exact Or.inr ⟨ts'', r', rfl, hlast, rfl⟩
  · rw [step] at h
    split at h
    · simp at h
    · rename_i hblocked
      obtain ⟨rfl, rfl⟩ := Prod.mk.inj (Option.some.inj h)
      exact Or.inl ⟨q, rfl, by simpa using hblocked, rfl, rfl⟩

/-- The three ways an operand can be read. -/
theorem operand_cases {climb : Nat → List τ → Option (Cst α π ι ω × List τ)}
    {c : Cst α π ι ω} {ts rest : List τ} (h : R.operand climb ts = some (c, rest)) :
    (∃ a, R.head ts = some (.atom a, rest) ∧ c = .atom a) ∨
      (∃ p ts' d, R.head ts = some (.pre p, ts') ∧ climb (R.prePower p) ts' = some (d, rest) ∧
        c = .pre p d) ∨
      ∃ ts' d, R.head ts = some (.opening, ts') ∧ climb 0 ts' = some (d, R.closing :: rest) ∧
        c = .group d := by
  unfold operand at h
  cases hhead : R.head ts with
  | none => simp [hhead] at h
  | some front =>
    obtain ⟨head, ts'⟩ := front
    cases head with
    | atom a =>
      simp only [hhead, Option.some.injEq, Prod.mk.injEq] at h
      exact Or.inl ⟨a, by rw [h.2], h.1.symm⟩
    | pre p =>
      simp only [hhead, Option.map_eq_some_iff] at h
      obtain ⟨⟨d, rest'⟩, hclimb, heq⟩ := h
      obtain ⟨rfl, rfl⟩ := Prod.mk.inj heq
      exact Or.inr (Or.inl ⟨p, ts', d, rfl, hclimb, rfl⟩)
    | opening =>
      simp only [hhead] at h
      split at h
      · rename_i d t rest' hclimb
        split at h
        · rename_i ht
          obtain ⟨rfl, rfl⟩ := Prod.mk.inj (Option.some.inj h)
          exact Or.inr (Or.inr ⟨ts', d, rfl, by rw [hclimb, ht], rfl⟩)
        · simp at h
      · simp at h

end Reader

end climbing
