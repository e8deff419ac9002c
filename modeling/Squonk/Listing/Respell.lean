import Squonk.Listing.Basic

/-!
# Exchanging the tokens of some items

The items of a list that are kept are read again, and each one that is exchanged is read for what
its own tokens say. So a list follows an exchange of its items exactly where every item does.
-/

namespace listing.Reader

variable {τ ε α : Type} {item : Reader τ ε (Option α)} {swap : List τ → List τ → Prop}
  {R : α → α → Prop}

/-- The second list of tokens is the first with `n` of its items exchanged. -/
inductive Respelled (item : Reader τ ε (Option α)) (swap : List τ → List τ → Prop) :
    Nat → List τ → List τ → Prop
  | stop {ts rest : List τ} : item ts = .ok (none, rest) → Respelled item swap 0 ts ts
  | keep {n : Nat} {used ts ts' : List τ} {a : α} : Takes item used (some a) →
    Respelled item swap n ts ts' → Respelled item swap n (used ++ ts) (used ++ ts')
  | swap {n : Nat} {used used' ts ts' : List τ} {a : α} : Takes item used (some a) →
    swap used used' → Respelled item swap n ts ts' →
    Respelled item swap (n + 1) (used ++ ts) (used' ++ ts')

/-- The exchanged tokens of an item are read for a related item. -/
def Follows (item : Reader τ ε (Option α)) (swap : List τ → List τ → Prop) (R : α → α → Prop) :
    Prop :=
  ∀ used used' a, Takes item used (some a) → swap used used' →
    ∃ a', Takes item used' (some a') ∧ R a a'

/-- What the exchanged tokens of an item start is no related item. -/
def Breaks (item : Reader τ ε (Option α)) (swap : List τ → List τ → Prop) (R : α → α → Prop) :
    Prop :=
  ∀ used used' a, Takes item used (some a) → swap used used' →
    ∀ ts a' rest, item (used' ++ ts) = .ok (some a', rest) → ¬ R a a'

theorem Lists.of_takes {used ts rest : List τ} {a : α} {as : List α}
    (htakes : Takes item used (some a)) (hlists : Lists item (used ++ ts) as rest) :
    ∃ as', as = a :: as' ∧ Lists item ts as' rest := by
  have hused := htakes.2 ts
  cases hlists with
  | stop hitem => cases hused.symm.trans hitem
  | turn hitem hrest =>
    cases hused.symm.trans hitem
    exact ⟨_, rfl, hrest⟩

theorem Follows.lists (hfollows : Follows item swap R) (hR : ∀ a, R a a) {n : Nat}
    {ts ts' rest : List τ} {as : List α} (hts : Respelled item swap n ts ts')
    (hlists : Lists item ts as rest) :
    ∃ as', Lists item ts' as' rest ∧ List.Forall₂ R as as' := by
  induction hts generalizing as with
  | stop hitem => exact ⟨as, hlists, List.forall₂_same.mpr fun a _ => hR a⟩
  | keep htakes _ ih =>
    obtain ⟨as, rfl, htail⟩ := hlists.of_takes htakes
    obtain ⟨as', hlists', has⟩ := ih htail
    exact ⟨_, .turn (htakes.2 _) hlists', .cons (hR _) has⟩
  | swap htakes hswap _ ih =>
    obtain ⟨as, rfl, htail⟩ := hlists.of_takes htakes
    obtain ⟨as', hlists', has⟩ := ih htail
    obtain ⟨a', htakes', ha⟩ := hfollows _ _ _ htakes hswap
    exact ⟨_, .turn (htakes'.2 _) hlists', .cons ha has⟩

/-- Behind the first item that is exchanged the two lists are no longer related. -/
theorem Breaks.lists (hbreaks : Breaks item swap R) {n : Nat} {ts ts' rest rest' : List τ}
    {as as' : List α} (hts : Respelled item swap n ts ts') (hn : n ≠ 0)
    (hlists : Lists item ts as rest) (hlists' : Lists item ts' as' rest') :
    ¬ List.Forall₂ R as as' := by
  induction hts generalizing as as' with
  | stop _ => exact absurd rfl hn
  | keep htakes _ ih =>
    obtain ⟨as, rfl, htail⟩ := hlists.of_takes htakes
    obtain ⟨as', rfl, htail'⟩ := hlists'.of_takes htakes
    intro has
    rw [List.forall₂_cons] at has
    exact ih hn htail htail' has.2
  | swap htakes hswap _ _ =>
    obtain ⟨as, rfl, -⟩ := hlists.of_takes htakes
    intro has
    cases hlists' with
    | stop _ => cases has
    | turn hitem _ =>
      rw [List.forall₂_cons] at has
      exact hbreaks _ _ _ htakes hswap _ _ _ hitem has.1

end listing.Reader
