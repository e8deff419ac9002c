import Mathlib.Data.List.Basic
import Mathlib.Tactic.Ring
import Squonk.Climbing.Cst

/-!
# Parentheses are readable

The leading token of an operator is found again in the tokens of an expression by how many
plain tokens stand before it, and how deeply it is nested is read off the parentheses.
-/

namespace climbing

variable {τ α π ι ω : Type} [DecidableEq τ]

namespace Lexicon

variable (L : Lexicon τ α π ι ω)

/-- Whether a token is one of the two grouping parentheses. -/
def IsParen (t : τ) : Prop := t = L.opening ∨ t = L.closing

instance (t : τ) : Decidable (L.IsParen t) := by unfold IsParen; infer_instance

/-- How many tokens of a list are not grouping parentheses. -/
def plain (ts : List τ) : Nat := (ts.filter fun t => ¬ L.IsParen t).length

/-- Openings minus closings. -/
def net (ts : List τ) : Int := ts.count L.opening - ts.count L.closing

/-- A token list that begins with a plain token and nests as deeply at its end as at its
    start. -/
def Solid (ts : List τ) : Prop := (∃ t rest, ts = t :: rest ∧ ¬ L.IsParen t) ∧ L.net ts = 0

variable {L}

@[simp] theorem plain_append (xs ys : List τ) : L.plain (xs ++ ys) = L.plain xs + L.plain ys := by
  simp [plain]

@[simp] theorem net_append (xs ys : List τ) : L.net (xs ++ ys) = L.net xs + L.net ys := by
  simp only [net, List.count_append, Nat.cast_add]
  ring

theorem plain_cons_paren {t : τ} (h : L.IsParen t) (ts : List τ) :
    L.plain (t :: ts) = L.plain ts := by
  simp [plain, h]

theorem plain_cons {t : τ} (h : ¬ L.IsParen t) (ts : List τ) :
    L.plain (t :: ts) = L.plain ts + 1 := by
  simp [plain, h]

@[simp] theorem plain_replicate_opening (k : Nat) : L.plain (List.replicate k L.opening) = 0 := by
  induction k with
  | zero => rfl
  | succ k ih => rw [List.replicate_succ, plain_cons_paren (Or.inl rfl), ih]

theorem net_replicate_opening (hne : L.opening ≠ L.closing) (k : Nat) :
    L.net (List.replicate k L.opening) = k := by
  simp [net, List.count_replicate, hne]

/-- A plain token is found again by the number of plain tokens before it. -/
theorem split_at_plain {xs xs' ys ys' : List τ} {t t' : τ} (ht : ¬ L.IsParen t)
    (ht' : ¬ L.IsParen t') (hcount : L.plain xs = L.plain xs')
    (heq : xs ++ t :: ys = xs' ++ t' :: ys') : xs = xs' ∧ t = t' ∧ ys = ys' := by
  induction xs generalizing xs' with
  | nil =>
    cases xs' with
    | nil =>
      obtain ⟨hhead, htail⟩ := List.cons.inj heq
      exact ⟨rfl, hhead, htail⟩
    | cons x xs' =>
      obtain ⟨hhead, -⟩ := List.cons.inj heq
      rw [← hhead, plain_cons ht] at hcount
      simp [plain] at hcount
  | cons x xs ih =>
    cases xs' with
    | nil =>
      obtain ⟨hhead, -⟩ := List.cons.inj heq
      rw [hhead, plain_cons ht'] at hcount
      simp [plain] at hcount
    | cons x' xs' =>
      obtain ⟨hhead, htail⟩ := List.cons.inj heq
      subst hhead
      have hrest : L.plain xs = L.plain xs' := by
        by_cases hx : L.IsParen x
        · rwa [plain_cons_paren hx, plain_cons_paren hx] at hcount
        · rw [plain_cons hx, plain_cons hx] at hcount
          omega
      obtain ⟨hxs, htt, hys⟩ := ih hrest htail
      exact ⟨by rw [hxs], htt, hys⟩

/-- Behind equally many plain tokens, the parentheses opened in front of two balanced
    runs can be counted. -/
theorem split_wrapped (hne : L.opening ≠ L.closing) {j k : Nat} (xs xs' : List τ)
    {us us' : List τ} (hus : L.Solid us) (hus' : L.Solid us') {ys ys' : List τ}
    (hnet : L.net xs = 0) (hnet' : L.net xs' = 0) (hcount : L.plain xs = L.plain xs')
    (heq : List.replicate j L.opening ++ (xs ++ (us ++ ys)) =
      List.replicate k L.opening ++ (xs' ++ (us' ++ ys'))) :
    j = k ∧ xs = xs' ∧ us ++ ys = us' ++ ys' := by
  obtain ⟨⟨t, rest, rfl, ht⟩, -⟩ := hus
  obtain ⟨⟨t', rest', rfl, ht'⟩, -⟩ := hus'
  rw [← List.append_assoc, ← List.append_assoc (List.replicate k _)] at heq
  obtain ⟨hfront, hhead, htail⟩ := split_at_plain ht ht' (by simpa using hcount) heq
  have hdepth : (j : Int) = k := by
    have hnets := congrArg L.net hfront
    simpa [net_replicate_opening hne, hnet, hnet'] using hnets
  have hjk : j = k := by exact_mod_cast hdepth
  subst hjk
  refine ⟨rfl, List.append_cancel_left hfront, ?_⟩
  rw [List.cons_append, List.cons_append, hhead]
  exact congrArg _ htail

end Lexicon

end climbing
