import Mathlib

/-!
# Readers and lists of items

A reader takes tokens from the front. It is fixed where what it gives depends on the tokens it
takes and on nothing behind them. A list of fixed items reads item by item: exchanging the tokens
of some items changes these items and no other.
-/

namespace listing

variable {τ ε α β : Type}

abbrev Reader (τ ε α : Type) := StateT (List τ) (Except ε) α

namespace Reader

def look (f : List τ → α) : Reader τ ε α := fun ts => .ok (f ts, ts)

def skip : Reader τ ε Unit := fun ts => .ok ((), ts.tail)

def fail (error : ε) : Reader τ ε α := fun _ => .error error

/-- Take the first token where it meets a test, and say whether it did. -/
def accept (test : τ → Bool) : Reader τ ε Bool := do
  if ← look fun ts => ts.head?.any test then
    skip
    return true
  else
    return false

/-- Take the first token for what it stands for. -/
def token (means : τ → Option α) (error : ε) : Reader τ ε α := do
  match ← look fun ts => ts.head?.bind means with
  | some a =>
    skip
    return a
  | none => fail error

/-! ## Running a reader -/

@[simp] theorem pure_apply (a : α) (ts : List τ) : (pure a : Reader τ ε α) ts = .ok (a, ts) := rfl

@[simp] theorem bind_apply (m : Reader τ ε α) (f : α → Reader τ ε β) (ts : List τ) :
    (m >>= f) ts = (m ts).bind fun p => f p.1 p.2 := rfl

@[simp] theorem map_apply (f : α → β) (m : Reader τ ε α) (ts : List τ) :
    (f <$> m) ts = (m ts).bind fun p => .ok (f p.1, p.2) := by
  cases h : m ts <;> simp [Functor.map, StateT.map, h, bind, Except.bind, pure, Except.pure]

@[simp] theorem look_apply (f : List τ → α) (ts : List τ) :
    (look f : Reader τ ε α) ts = .ok (f ts, ts) := rfl

@[simp] theorem skip_apply (ts : List τ) :
    (skip : Reader τ ε Unit) ts = .ok ((), ts.tail) := rfl

@[simp] theorem fail_apply (error : ε) (ts : List τ) :
    (fail error : Reader τ ε α) ts = .error error := rfl

@[simp] theorem bind_ok (a : α) (f : α → Except ε β) : (Except.ok a).bind f = f a := rfl

@[simp] theorem bind_error (error : ε) (f : α → Except ε β) :
    (Except.error error).bind f = .error error := rfl

@[simp] theorem ite_reader (c : Prop) [Decidable c] (m n : Reader τ ε α) (ts : List τ) :
    (if c then m else n) ts = if c then m ts else n ts := by
  split <;> rfl

theorem bind_eq_ok {m : Except ε α} {f : α → Except ε β} {b : β} :
    m.bind f = .ok b ↔ ∃ a, m = .ok a ∧ f a = .ok b := by
  cases m with
  | error error => simp
  | ok a => simp

@[simp] theorem accept_nil (test : τ → Bool) : (accept test : Reader τ ε Bool) [] = .ok (false, []) := by
  simp [accept]

@[simp] theorem accept_cons (test : τ → Bool) (t : τ) (ts : List τ) :
    (accept test : Reader τ ε Bool) (t :: ts) = .ok (test t, if test t then ts else t :: ts) := by
  cases h : test t <;> simp [accept, h]

theorem token_apply (means : τ → Option α) (error : ε) (ts : List τ) :
    token means error ts =
      (ts.head?.bind means).elim (Except.error error) fun a => .ok (a, ts.tail) := by
  cases h : ts.head?.bind means <;> simp [token, h]

/-! ## Fixed readers -/

/-- `m` takes the tokens `used` for `a`, whatever stands behind them. -/
def Takes (m : Reader τ ε α) (used : List τ) (a : α) : Prop :=
  used ≠ [] ∧ ∀ rest, m (used ++ rest) = .ok (a, rest)

/-- What `m` gives is in the tokens it takes, and it takes one. -/
def Fixed (m : Reader τ ε α) : Prop :=
  ∀ ts a rest, m ts = .ok (a, rest) → ∃ used, ts = used ++ rest ∧ Takes m used a

theorem fixed_fail (error : ε) : Fixed (fail error : Reader τ ε α) := by
  intro ts a rest h
  cases h

theorem fixed_token (means : τ → Option α) (error : ε) : Fixed (token means error) := by
  intro ts a rest h
  rw [token_apply] at h
  cases ts with
  | nil => cases h
  | cons t ts =>
    cases hmeans : means t with
    | none => simp [hmeans] at h
    | some b =>
      simp only [List.head?_cons, Option.bind_some, hmeans, Option.elim_some, List.tail_cons,
        Except.ok.injEq, Prod.mk.injEq] at h
      obtain ⟨rfl, rfl⟩ := h
      exact ⟨[t], rfl, List.cons_ne_nil t [], fun rest => by simp [token_apply, hmeans]⟩

theorem Fixed.accept_bind (test : τ → Bool) {k : Bool → Reader τ ε α} (hk : ∀ b, Fixed (k b)) :
    Fixed (accept test >>= k) := by
  intro ts a rest h
  cases ts with
  | nil =>
    obtain ⟨used, hused, hne, -⟩ := hk false [] a rest (by simpa using h)
    exact absurd (List.append_eq_nil_iff.mp hused.symm).1 hne
  | cons t ts =>
    cases htest : test t with
    | true =>
      obtain ⟨used, rfl, -, hused⟩ := hk true ts a rest (by simpa [htest] using h)
      exact ⟨t :: used, rfl, List.cons_ne_nil t used, fun rest' => by simp [htest, hused]⟩
    | false =>
      obtain ⟨used, hts, hne, hused⟩ := hk false (t :: ts) a rest (by simpa [htest] using h)
      obtain ⟨u, used, rfl⟩ := List.exists_cons_of_ne_nil hne
      obtain ⟨rfl, rfl⟩ := List.cons.inj hts
      refine ⟨t :: used, rfl, hne, fun rest' => ?_⟩
      have hrest := hused rest'
      simpa [htest] using hrest

theorem Fixed.bind {m : Reader τ ε α} {k : α → Reader τ ε β} (hm : Fixed m)
    (hk : ∀ a, Fixed (k a)) : Fixed (m >>= k) := by
  intro ts b rest h
  obtain ⟨⟨a, mid⟩, hfirst, hsecond⟩ := bind_eq_ok.mp h
  obtain ⟨used, rfl, hne, hused⟩ := hm ts a mid hfirst
  obtain ⟨more, rfl, -, hmore⟩ := hk a mid b rest hsecond
  refine ⟨used ++ more, (List.append_assoc used more rest).symm, by simp [hne], fun rest' => ?_⟩
  simp [List.append_assoc, hused, hmore]

theorem Fixed.bind_pure {m : Reader τ ε α} (hm : Fixed m) (f : α → β) :
    Fixed (do return f (← m)) := by
  intro ts b rest h
  obtain ⟨⟨a, mid⟩, hfirst, hsecond⟩ := bind_eq_ok.mp h
  obtain ⟨rfl, rfl⟩ := Prod.mk.inj (Except.ok.inj hsecond)
  obtain ⟨used, rfl, hne, hused⟩ := hm ts a mid hfirst
  exact ⟨used, rfl, hne, fun rest' => by simp [hused]⟩

/-! ## Lists -/

/-- Items until there is none. -/
def turns (item : Reader τ ε (Option α)) : Nat → Reader τ ε (List α)
  | 0 => return []
  | n + 1 => do
    match ← item with
    | some a => return a :: (← turns item n)
    | none => return []

/-- Every item takes a token, so the tokens bound the turns. -/
def many (item : Reader τ ε (Option α)) : Reader τ ε (List α) := do
  turns item ((← look List.length) + 1)

/-- The turns of a list, one after another. -/
inductive Lists (item : Reader τ ε (Option α)) : List τ → List α → List τ → Prop
  | stop {ts rest : List τ} : item ts = .ok (none, rest) → Lists item ts [] rest
  | turn {ts mid rest : List τ} {a : α} {as : List α} : item ts = .ok (some a, mid) →
    Lists item mid as rest → Lists item ts (a :: as) rest

/-- An item takes a token. -/
def Shrinks (item : Reader τ ε (Option α)) : Prop :=
  ∀ ts a rest, item ts = .ok (some a, rest) → rest.length < ts.length

/-- What an item gives is in the tokens it takes. -/
def FixedItem (item : Reader τ ε (Option α)) : Prop :=
  ∀ ts a rest, item ts = .ok (some a, rest) → ∃ used, ts = used ++ rest ∧ Takes item used (some a)

theorem FixedItem.shrinks {item : Reader τ ε (Option α)} (h : FixedItem item) : Shrinks item := by
  intro ts a rest hitem
  obtain ⟨used, rfl, hne, -⟩ := h ts a rest hitem
  have hpos := List.length_pos_iff.mpr hne
  simp only [List.length_append]
  omega

theorem fixedItem_none : FixedItem (return none : Reader τ ε (Option α)) := by
  intro ts a rest h
  cases h

theorem Fixed.item {m : Reader τ ε α} (hm : Fixed m) : FixedItem (do return some (← m)) := by
  intro ts a rest h
  exact (hm.bind_pure some) ts (some a) rest h

/-- The first token is tested and left where it stands. -/
theorem FixedItem.look_bind (test : τ → Bool) {k : Bool → Reader τ ε (Option α)}
    (hk : ∀ b, FixedItem (k b)) : FixedItem (look (fun ts => ts.head?.any test) >>= k) := by
  intro ts a rest h
  obtain ⟨used, rfl, hne, hused⟩ := hk _ ts a rest h
  obtain ⟨t, used, rfl⟩ := List.exists_cons_of_ne_nil hne
  exact ⟨t :: used, rfl, hne, hused⟩

theorem turns_eq_ok {item : Reader τ ε (Option α)} (h : Shrinks item) {n : Nat} {ts rest : List τ}
    {as : List α} (hn : ts.length < n) :
    turns item n ts = .ok (as, rest) ↔ Lists item ts as rest := by
  induction n generalizing ts as with
  | zero => omega
  | succ n ih =>
    rw [turns, bind_apply]
    constructor
    · intro hrun
      obtain ⟨⟨o, mid⟩, hitem, hrun⟩ := bind_eq_ok.mp hrun
      cases o with
      | none =>
        obtain ⟨rfl, rfl⟩ := Prod.mk.inj (Except.ok.inj hrun)
        exact .stop hitem
      | some a =>
        obtain ⟨⟨as, rest⟩, hrest, heq⟩ := bind_eq_ok.mp hrun
        obtain ⟨rfl, rfl⟩ := Prod.mk.inj (Except.ok.inj heq)
        have hlt := h ts a mid hitem
        exact .turn hitem ((ih (by omega)).mp hrest)
    · intro hlists
      cases hlists with
      | stop hitem => simp [hitem]
      | turn hitem hrest =>
        have hlt := h _ _ _ hitem
        simp [hitem, (ih (by omega)).mpr hrest]

theorem many_eq_ok {item : Reader τ ε (Option α)} (h : Shrinks item) {ts rest : List τ}
    {as : List α} : many item ts = .ok (as, rest) ↔ Lists item ts as rest := by
  rw [many, bind_apply, look_apply, bind_ok]
  exact turns_eq_ok h (Nat.lt_succ_self _)

end Reader

end listing
